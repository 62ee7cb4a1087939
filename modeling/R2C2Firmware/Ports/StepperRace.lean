import R2C2Firmware.Ports.StepperFifo

/-!
# Nothing is executed before it is planned

`plan_buffer_line` publishes its block by moving `block_buffer_head`, and only
then calls `planner_recalculate`.  The step timer may run in between.  Usually
the interrupt is busy with an older block; but after the last block of the queue
has been discarded the timer stays on until the next interrupt, and if that
interrupt comes just after a publication it takes up a block whose trapezoid is
still the one its slot was left with.

Here the two halves of a request are separate steps, with interrupts between.

## Main results

* `planned_before_executed` — the interrupts of a run take up planned moves
  only, if and only if none of them is taken in that window.
* `executed_before_planned` — a run with an interrupt in the window.
-/

set_option linter.unusedSectionVars false

namespace R2C2Firmware.Ports.Stepper

open R2C2Firmware.Verified
open R2C2Firmware.Verified.Number
open R2C2Firmware.Ports.Config
open R2C2Firmware.Ports.MotionPlanner

variable {R : Type*} [Field R] [LinearOrder R] [HasSqrt R] [FloorRing R]

/-! ## Trapezoids -/

/-- The rates and the ends of the ramps are those that
`calculate_trapezoid_for_block` computes for this block. -/
def Trapezoidal (b : Block R) : Prop :=
  ∃ entryFactor exitFactor : R,
    calculateTrapezoidForBlock b entryFactor exitFactor = b

/-- `calculate_trapezoid_for_block` from the two rates on. -/
def trapezoidFrom (block : Block R) (initialRate finalRate : Int) : Block R :=
  let accelerationPerMinute := int32
    (truncate ((int32 (block.rateDelta * accelerationTicksPerSecond) : R) * 60))
  let accelerateSteps := int32 ⌈estimateAccelerationDistance
    (initialRate : R) (block.nominalRate : R) (accelerationPerMinute : R)⌉
  let decelerateSteps := int32 ⌊estimateAccelerationDistance
    (block.nominalRate : R) (finalRate : R) (int32 (-accelerationPerMinute) : R)⌋
  let plateauSteps :=
    int32 (block.stepEventCount - accelerateSteps - decelerateSteps)
  if plateauSteps < 0 then
    let accelerateSteps := int32 ⌈intersectionDistance (initialRate : R)
      (finalRate : R) (accelerationPerMinute : R) (block.stepEventCount : R)⌉
    let accelerateSteps := min (max accelerateSteps 0) block.stepEventCount
    { block with
      initialRate, finalRate
      accelerateUntil := uint32 accelerateSteps
      decelerateAfter := uint32 accelerateSteps }
  else
    { block with
      initialRate, finalRate
      accelerateUntil := uint32 accelerateSteps
      decelerateAfter := uint32 (accelerateSteps + plateauSteps) }

/-- The two rates determine the rest of a trapezoid. -/
theorem Trapezoidal.from_rates {b : Block R} (h : Trapezoidal b) :
    trapezoidFrom b b.initialRate b.finalRate = b := by
  obtain ⟨f, g, hfg⟩ := h
  have heq : trapezoidFrom b (uint32 ⌈(b.nominalRate : R) * f⌉)
      (uint32 ⌈(b.nominalRate : R) * g⌉) = b := hfg
  have hrates : ∀ i j, (trapezoidFrom b i j).initialRate = i ∧
      (trapezoidFrom b i j).finalRate = j := by
    intro i j
    unfold trapezoidFrom
    dsimp only
    split <;> exact ⟨rfl, rfl⟩
  obtain ⟨hi, hj⟩ := hrates (uint32 ⌈(b.nominalRate : R) * f⌉)
    (uint32 ⌈(b.nominalRate : R) * g⌉)
  rw [heq] at hi hj
  rw [hi, hj]
  exact heq

theorem retrapezoid_trapezoidal (b : Block R) (exitSpeed : R) :
    Trapezoidal (retrapezoid b exitSpeed) := by
  refine ⟨b.entrySpeed / b.nominalSpeed, exitSpeed / b.nominalSpeed, ?_⟩
  unfold retrapezoid calculateTrapezoidForBlock
  dsimp only
  split <;> rfl

/-- The part of a block that a trapezoid is about. -/
def shape (b : Block R) : Block R :=
  { b with entrySpeed := 0, recalculateFlag := false }

theorem Trapezoidal.of_shape {b c : Block R} (h : Trapezoidal b)
    (hc : shape c = shape b) : Trapezoidal c := by
  obtain ⟨f, g, hfg⟩ := h
  have hcb : c = { b with
      entrySpeed := c.entrySpeed
      recalculateFlag := c.recalculateFlag } := by
    have hback : c = { shape c with
        entrySpeed := c.entrySpeed
        recalculateFlag := c.recalculateFlag } := rfl
    rw [hc] at hback
    exact hback
  have hcalc : calculateTrapezoidForBlock c f g =
      { calculateTrapezoidForBlock b f g with
        entrySpeed := c.entrySpeed
        recalculateFlag := c.recalculateFlag } := by
    rw [hcb]
    unfold calculateTrapezoidForBlock
    dsimp only
    split <;> rfl
  exact ⟨f, g, by rw [hcalc, hfg, ← hcb]⟩

theorem reverseJunction_shape (cfg : Configuration R) (b n : Block R) :
    shape (reverseJunction cfg b n) = shape b := by
  unfold reverseJunction
  split <;> rfl

theorem forwardJunction_shape (cfg : Configuration R) (p b : Block R) :
    shape (forwardJunction cfg p b) = shape b := by
  unfold forwardJunction
  split
  · dsimp only
    split <;> rfl
  · rfl

/-- The two passes leave the trapezoids alone. -/
theorem passes_shape (cfg : Configuration R) (bs : List (Block R)) :
    (forwardQueue cfg (reverseQueue cfg bs)).map shape =
      bs.map shape := by
  cases bs with
  | nil => rfl
  | cons b bs =>
      rw [reverseQueue, forwardQueue, List.map_cons,
        Ring.scanLeft_map shape (forwardJunction_shape cfg),
        Ring.scanRight_map shape (reverseJunction_shape cfg),
        List.map_cons]

theorem trapezoidQueue_trapezoidal (bs : List (Block R))
    (h : ∀ b ∈ bs.dropLast, Trapezoidal b) :
    ∀ b ∈ trapezoidQueue bs, Trapezoidal b := by
  unfold trapezoidQueue
  induction bs with
  | nil => exact fun b hb => absurd hb (by simp [Ring.pairUp])
  | cons a bs ih =>
      cases bs with
      | nil =>
          intro b hb
          rw [Ring.pairUp, List.mem_singleton] at hb
          rw [hb]
          exact retrapezoid_trapezoidal a _
      | cons c bs =>
          rw [List.dropLast_cons_cons] at h
          intro b hb
          rw [Ring.pairUp, List.mem_cons] at hb
          rcases hb with rfl | hb
          · unfold trapezoidJunction
            split
            · exact retrapezoid_trapezoidal a _
            · exact h a List.mem_cons_self
          · exact ih (fun d hd => h d (List.mem_cons_of_mem _ hd)) b hb

/-- Replanning computes the trapezoid of the newest block and keeps those of
the others. -/
theorem recalculateQueue_trapezoidal (cfg : Configuration R)
    {bs : List (Block R)} (h : ∀ b ∈ bs.dropLast, Trapezoidal b) :
    ∀ b ∈ recalculateQueue cfg bs, Trapezoidal b := by
  refine trapezoidQueue_trapezoidal _ ?_
  intro b hb
  have hshape : (forwardQueue cfg (reverseQueue cfg bs)).dropLast.map
      shape = bs.dropLast.map shape := by
    rw [List.map_dropLast, List.map_dropLast, passes_shape]
  have hmem : shape b ∈ bs.dropLast.map shape := by
    rw [← hshape]
    exact List.mem_map_of_mem hb
  obtain ⟨c, hc, hcb⟩ := List.mem_map.1 hmem
  exact (h c hc).of_shape hcb.symm

/-! ## Runs in small steps -/

/-- Where the main program is in its request. -/
inductive Phase where
  | idle
  /-- the block in this slot is published and not yet planned -/
  | published (slot : Nat)
  /-- planned; `st_wake_up()` is next -/
  | planned
  deriving DecidableEq, Repr

/-- The block the interrupt takes up, if it takes one up. -/
def loads (m : Machine R) : Option Nat :=
  if m.stepper.busy then none
  else
    match m.stepper.currentBlock with
    | some _ => none
    | none => planGetCurrentBlock m.planner

/-- Runs from `plan_init` with every request in its steps, and the states in
which interrupts were taken, latest first.  The interrupt is taken while its
timer is enabled. -/
inductive SplitRun : List (Machine R × Phase) → Machine R × Phase → Prop
  | init (m : Machine R) (pl : Planner R) : m.planner = planInit pl →
      m.stepper.currentBlock = none → m.stepper.busy = false →
      SplitRun [] (m, .idle)
  | publishLine {hist : List (Machine R × Phase)} {m : Machine R}
      (pAction : ActionRequest R) : SplitRun hist (m, .idle) →
      planQueueFull m.planner = false →
      zeroLength m.config pAction m.planner = false →
      SplitRun hist
        ({ m with planner := publishLine m.config pAction m.planner },
          .published m.planner.blockBufferHead)
  | zeroLine {hist : List (Machine R × Phase)} {m : Machine R}
      (pAction : ActionRequest R) : SplitRun hist (m, .idle) →
      planQueueFull m.planner = false →
      zeroLength m.config pAction m.planner = true →
      SplitRun hist
        ({ m with planner := (planBufferLine m.config pAction m.planner).1 },
          .idle)
  | publishWait {hist : List (Machine R × Phase)} {m : Machine R}
      (pAction : ActionRequest R) : SplitRun hist (m, .idle) →
      planQueueFull m.planner = false →
      pAction.actionType = .wait ∨ pAction.actionType = .waitTemps →
      SplitRun hist
        ({ m with planner := publishWait pAction m.planner },
          .published m.planner.blockBufferHead)
  | recalculate {hist : List (Machine R × Phase)} {m : Machine R} {slot : Nat} :
      SplitRun hist (m, .published slot) →
      SplitRun hist ({ m with planner := finishPlan m.config m.planner },
        .planned)
  | wakeUp {hist : List (Machine R × Phase)} {m : Machine R} :
      SplitRun hist (m, .planned) → SplitRun hist (stWakeUp m, .idle)
  | interrupt {hist : List (Machine R × Phase)} {m : Machine R} {ph : Phase}
      (inp : StInputs) : SplitRun hist (m, ph) →
      m.timers.enabled 1 = true →
      SplitRun ((m, ph) :: hist) (stInterrupt inp m, ph)
  | other {hist : List (Machine R × Phase)} {m m' : Machine R} {ph : Phase} :
      SplitRun hist (m, ph) → m'.planner = m.planner →
      m'.stepper.currentBlock = m.stepper.currentBlock →
      m'.stepper.busy = m.stepper.busy → SplitRun hist (m', ph)

/-- A move that the interrupt takes up in this state has been planned: its
recalculation is not outstanding, and its trapezoid is its own. -/
def LoadsPlanned (x : Machine R × Phase) : Prop :=
  ∀ i, loads x.1 = some i → (x.1.planner.blockBuffer i).actionType = .move →
    x.2 ≠ .published i ∧ Trapezoidal (x.1.planner.blockBuffer i)

/-- The window: a move has been published and not planned, nothing is in
execution, and nothing else is pending. -/
def InWindow (x : Machine R × Phase) : Prop :=
  (∃ slot, x.2 = .published slot) ∧ x.1.stepper.currentBlock = none ∧
    ∃ b, x.1.planner.queue = [b] ∧ b.actionType = .move

/-! ## The invariant -/

/-- Every pending block is planned, except the one just published. -/
structure SplitInv (x : Machine R × Phase) : Prop where
  wf : x.1.planner.WF
  managed : x.1.planner.accelerationManagerEnabled = true
  ready : x.1.stepper.busy = false
  planned : (∀ slot, x.2 ≠ .published slot) →
    ∀ b ∈ x.1.planner.queue, Trapezoidal b
  published : ∀ slot, x.2 = .published slot →
    slot < blockBufferSize ∧ nextBlockIndex slot = x.1.planner.blockBufferHead ∧
      ∀ b ∈ x.1.planner.queue.dropLast, Trapezoidal b

namespace SplitInv

variable {m : Machine R} {ph : Phase}

/-- Outside a publication, all that matters is the queue. -/
theorem of_planned (hph : ∀ slot, ph ≠ .published slot) (hwf : m.planner.WF)
    (hman : m.planner.accelerationManagerEnabled = true)
    (hbusy : m.stepper.busy = false)
    (h : ∀ b ∈ m.planner.queue, Trapezoidal b) : SplitInv (m, ph) :=
  ⟨hwf, hman, hbusy, fun _ => h, fun slot hslot => absurd hslot (hph slot)⟩

/-- A publication appends one block to a planned queue. -/
theorem publish {pl : Planner R} {b : Block R} (h : SplitInv (m, .idle))
    (hwf : pl.WF) (hman : pl.accelerationManagerEnabled = true)
    (hhead : pl.blockBufferHead = nextBlockIndex m.planner.blockBufferHead)
    (hqueue : pl.queue = m.planner.queue ++ [b]) :
    SplitInv ({ m with planner := pl },
      .published m.planner.blockBufferHead) := by
  refine ⟨hwf, hman, h.ready, fun hph => absurd rfl (hph _), ?_⟩
  rintro slot ⟨⟩
  refine ⟨h.wf.head_lt, hhead.symm, ?_⟩
  show ∀ c ∈ pl.queue.dropLast, Trapezoidal c
  rw [hqueue, List.dropLast_concat]
  exact h.planned (by simp)

theorem recalculate {slot : Nat} (h : SplitInv (m, .published slot)) :
    SplitInv ({ m with planner := finishPlan m.config m.planner },
      .planned) := by
  have hkeep := finishPlan_eq m.config m.planner
  refine of_planned (by simp) (h.wf.finishPlan m.config) ?_ h.ready ?_
  · show (finishPlan m.config m.planner).accelerationManagerEnabled = true
    rw [hkeep]
    exact h.managed
  · show ∀ b ∈ (finishPlan m.config m.planner).queue, Trapezoidal b
    rw [queue_finishPlan m.config h.wf, if_pos h.managed]
    exact recalculateQueue_trapezoidal m.config (h.published slot rfl).2.2

theorem discards {m' : Machine R} (h : SplitInv (m, ph))
    (hdis : Discards m m') (hbusy : m'.stepper.busy = false) :
    SplitInv (m', ph) := by
  have hhead : m'.planner.blockBufferHead = m.planner.blockBufferHead ∧
      m'.planner.accelerationManagerEnabled =
        m.planner.accelerationManagerEnabled := by
    rcases hdis.2 with heq | heq
    · rw [heq]
      exact ⟨rfl, rfl⟩
    · rw [heq, planDiscardCurrentBlock_eq]
      exact ⟨rfl, rfl⟩
  have hqueue : m'.planner.queue = m.planner.queue ∨
      m'.planner.queue = m.planner.queue.tail := by
    rcases hdis.2 with heq | heq
    · rw [heq]
      exact .inl rfl
    · rw [heq]
      exact .inr (queue_discard h.wf)
  refine ⟨hdis.wf h.wf, hhead.2.trans h.managed, hbusy, ?_, ?_⟩
  · intro hph b hb
    rcases hqueue with hq | hq
    · exact h.planned hph b (hq ▸ hb)
    · exact h.planned hph b (List.mem_of_mem_tail (hq ▸ hb))
  · intro slot hslot
    obtain ⟨hlt, hnext, htrap⟩ := h.published slot hslot
    refine ⟨hlt, hnext.trans hhead.1.symm, ?_⟩
    intro b hb
    rcases hqueue with hq | hq
    · exact htrap b (hq ▸ hb)
    · rw [hq, ← List.tail_dropLast] at hb
      exact htrap b (List.mem_of_mem_tail hb)

end SplitInv

theorem SplitRun.inv {hist : List (Machine R × Phase)} {x : Machine R × Phase}
    (h : SplitRun hist x) : SplitInv x := by
  induction h with
  | init m pl hpl hcur hbusy =>
      refine .of_planned (by simp) ?_ ?_ hbusy ?_
      · rw [hpl]
        exact planInit_wf pl
      · rw [hpl]
        rfl
      · rw [hpl, planInit_queue]
        simp
  | publishLine pAction _ hroom hz ih =>
      exact ih.publish (ih.wf.publishLine _ _) ih.managed rfl
        (queue_publishLine _ pAction ih.wf hroom)
  | zeroLine pAction _ hroom hz ih =>
      refine .of_planned (by simp) (ih.wf.planBufferLine _ _) ?_ ih.ready ?_
      · show (planBufferLine _ _ _).1.accelerationManagerEnabled = true
        rw [planBufferLine_fst_of_zeroLength hz]
        exact ih.managed
      · show ∀ b ∈ (planBufferLine _ _ _).1.queue, Trapezoidal b
        rw [queue_planBufferLine _ pAction ih.wf hroom, if_pos hz]
        exact ih.planned (by simp)
  | publishWait pAction _ hroom hkind ih =>
      exact ih.publish (ih.wf.publishWait _) ih.managed rfl
        (Ring.contents_push ih.wf.head_lt ih.wf.tail_lt
          (planQueueFull_eq_false.1 hroom) _)
  | recalculate _ ih => exact ih.recalculate
  | wakeUp _ ih =>
      exact .of_planned (by simp) ih.wf ih.managed ih.ready
        (ih.planned (by simp))
  | interrupt inp _ _ ih =>
      exact ih.discards (stInterrupt_discards inp _)
        (stInterrupt_busy inp ih.ready)
  | @other hist m m' ph _ hplan hcur hbusy ih =>
      refine ⟨?_, ?_, hbusy.trans ih.ready, ?_, ?_⟩
      · rw [hplan]
        exact ih.wf
      · rw [hplan]
        exact ih.managed
      · rw [hplan]
        exact ih.planned
      · rw [hplan]
        exact ih.published

/-! ## The window -/

/-- The published slot is the tail slot when it holds the only pending
block. -/
theorem published_eq_tail {pl : Planner R} (hwf : pl.WF) {slot : Nat}
    (hlt : slot < blockBufferSize)
    (hnext : nextBlockIndex slot = pl.blockBufferHead) :
    slot = pl.blockBufferTail ↔ pl.queue.length = 1 := by
  have hlen : pl.queue.length =
      Ring.count blockBufferSize pl.blockBufferHead pl.blockBufferTail :=
    Ring.length_contents _ _ _ _
  have hhead := hwf.head_lt
  have htail := hwf.tail_lt
  rw [hlen]
  unfold nextBlockIndex Ring.next at hnext
  unfold Ring.count
  unfold blockBufferSize at *
  split at hnext <;> omega

/-- What an interrupt takes up is the oldest pending block. -/
theorem loads_eq_some {m : Machine R} (hwf : m.planner.WF) {i : Nat} :
    loads m = some i ↔ m.stepper.busy = false ∧
      m.stepper.currentBlock = none ∧ i = m.planner.blockBufferTail ∧
      ∃ bs, m.planner.queue = m.planner.blockBuffer i :: bs := by
  unfold loads planGetCurrentBlock
  by_cases hbusy : m.stepper.busy = true
  · simp [hbusy]
  · rw [Bool.not_eq_true] at hbusy
    rw [hbusy, if_neg Bool.false_ne_true]
    cases hcur : m.stepper.currentBlock with
    | some j => simp
    | none =>
        by_cases hne : m.planner.blockBufferHead = m.planner.blockBufferTail
        · have hnil := hwf.queue_eq_nil.2 hne
          simp [hne, hnil]
        · have hhead := hwf.queue_head? hne
          simp only [if_neg hne, Option.some.injEq, true_and]
          constructor
          · rintro rfl
            exact ⟨rfl, _, (List.cons_head?_tail hhead).symm⟩
          · rintro ⟨rfl, -⟩
            rfl

theorem loadsPlanned_iff {x : Machine R × Phase} (h : SplitInv x) :
    LoadsPlanned x ↔ ¬InWindow x := by
  obtain ⟨m, ph⟩ := x
  constructor
  · rintro hplanned ⟨⟨slot, rfl⟩, hcur, b, hqueue, hmove⟩
    obtain ⟨hlt, hnext, -⟩ := h.published slot rfl
    have htail : slot = m.planner.blockBufferTail :=
      (published_eq_tail h.wf hlt hnext).2 (by rw [hqueue]; rfl)
    have hne : m.planner.blockBufferHead ≠ m.planner.blockBufferTail := by
      intro heq
      rw [h.wf.queue_eq_nil.2 heq] at hqueue
      exact absurd hqueue (by simp)
    have hb : m.planner.blockBuffer slot = b := by
      have hhead := h.wf.queue_head? hne
      rw [hqueue, ← htail] at hhead
      exact (Option.some.inj hhead).symm
    have hload : loads m = some slot :=
      (loads_eq_some h.wf).2 ⟨h.ready, hcur, htail, [], by rw [hb]; exact hqueue⟩
    exact (hplanned slot hload (by rw [hb]; exact hmove)).1 rfl
  · intro hwindow i hload hmove
    obtain ⟨hbusy, hcur, htail, bs, hqueue⟩ := (loads_eq_some h.wf).1 hload
    by_cases hph : ∃ slot, ph = .published slot
    · obtain ⟨slot, rfl⟩ := hph
      obtain ⟨hlt, hnext, htrap⟩ := h.published slot rfl
      cases bs with
      | nil =>
          exact absurd ⟨⟨slot, rfl⟩, hcur, _, hqueue, hmove⟩ hwindow
      | cons c bs =>
          constructor
          · intro heq
            obtain rfl := Phase.published.inj heq
            have hone := (published_eq_tail h.wf hlt hnext).1 htail
            rw [hqueue] at hone
            exact absurd hone (by simp)
          · refine htrap _ ?_
            rw [hqueue, List.dropLast_cons_cons]
            exact List.mem_cons_self
    · have hnot : ∀ slot, ph ≠ .published slot :=
        fun slot heq => hph ⟨slot, heq⟩
      refine ⟨hnot i, h.planned hnot _ ?_⟩
      rw [hqueue]
      exact List.mem_cons_self

/-- Every state in which an interrupt was taken satisfies the invariant. -/
theorem SplitRun.hist_inv {hist : List (Machine R × Phase)}
    {x : Machine R × Phase} (h : SplitRun hist x) :
    ∀ y ∈ hist, SplitInv y := by
  induction h with
  | init => simp
  | publishLine _ _ _ _ ih => exact ih
  | zeroLine _ _ _ _ ih => exact ih
  | publishWait _ _ _ _ ih => exact ih
  | recalculate _ ih => exact ih
  | wakeUp _ ih => exact ih
  | interrupt inp hrun _ ih =>
      intro y hy
      rcases List.mem_cons.1 hy with rfl | hy
      · exact hrun.inv
      · exact ih y hy
  | other _ _ _ _ ih => exact ih

/-- In every run, the interrupts take up planned moves only if and only if none
of them is taken in the window. -/
theorem planned_before_executed {hist : List (Machine R × Phase)}
    {x : Machine R × Phase} (h : SplitRun hist x) :
    (∀ y ∈ hist, LoadsPlanned y) ↔ ∀ y ∈ hist, ¬InWindow y := by
  constructor
  · intro hall y hy
    exact (loadsPlanned_iff (h.hist_inv y hy)).1 (hall y hy)
  · intro hall y hy
    exact (loadsPlanned_iff (h.hist_inv y hy)).2 (hall y hy)

/-! ## An interrupt in the window -/

/-- A request for the second step along X. -/
def nextStep : ActionRequest ℚ := ⟨.move, ⟨1 / 40, 0, 0, 0, 600, false⟩⟩

/-- One step has been requested. -/
def requested : Machine ℚ :=
  stWakeUp
    (let m := Machine.start .default
     let m := { m with planner := publishLine m.config oneStep m.planner }
     { m with planner := finishPlan m.config m.planner })

/-- The step has been emitted and its block discarded; the step timer is still
running. -/
def drained : Machine ℚ := stInterrupt ⟨false, fun _ _ => false⟩ requested

/-- The next step has been published. -/
def raced : Machine ℚ :=
  { drained with planner := publishLine drained.config nextStep drained.planner }

/-- The run up to the publication. -/
theorem drained_run : SplitRun [(requested, .idle)] (drained, .idle) := by
  have hstart : SplitRun (R := ℚ) [] (Machine.start .default, .idle) :=
    .init _ .zero rfl rfl rfl
  have hrequested : SplitRun [] (requested, .idle) :=
    ((hstart.publishLine oneStep rfl (by decide +kernel)).recalculate).wakeUp
  exact hrequested.interrupt _ (by decide +kernel)

/-- The interrupt takes up a move whose trapezoid is not its own. -/
theorem executed_before_planned :
    ∃ (hist : List (Machine ℚ × Phase)) (x : Machine ℚ × Phase),
      SplitRun hist x ∧ ∃ y ∈ hist, ¬LoadsPlanned y ∧
        ∃ i, loads y.1 = some i ∧
          (y.1.planner.blockBuffer i).actionType = .move ∧
          ¬Trapezoidal (y.1.planner.blockBuffer i) := by
  have hpub := drained_run.publishLine nextStep (by decide +kernel)
    (by decide +kernel)
  have hint := hpub.interrupt ⟨false, fun _ _ => false⟩ (by decide +kernel)
  have hload : loads raced = some 1 := by decide +kernel
  have hmove : (raced.planner.blockBuffer 1).actionType = .move := by
    decide +kernel
  have hstale : ¬Trapezoidal (raced.planner.blockBuffer 1) := by
    intro htrap
    have hsteps := congrArg Block.accelerateUntil htrap.from_rates
    exact absurd hsteps (by decide +kernel)
  exact ⟨_, _, hint, _, List.mem_cons_self,
    fun hplanned => hstale (hplanned 1 hload hmove).2, 1, hload, hmove, hstale⟩

/-- The run before the publication meets the condition. -/
theorem planned_before_executed_drained :
    SplitRun [(requested, .idle)] (drained, .idle) ∧
      loads requested = some 0 ∧ LoadsPlanned (requested, .idle) := by
  have hplanned := (planned_before_executed drained_run).2 (by
    intro y hy
    rw [List.mem_singleton.1 hy]
    rintro ⟨⟨slot, hslot⟩, -⟩
    exact absurd hslot (by simp))
  exact ⟨drained_run, by decide +kernel, hplanned _ List.mem_cons_self⟩

end R2C2Firmware.Ports.Stepper
