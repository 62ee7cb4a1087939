import R2C2Firmware.Ports.MotionPlanner

/-!
# The planner ring as a queue

`planner.c` keeps its blocks in a ring and walks it with trailing pointers.
This file shows that every operation acts on the list of pending blocks in the
obvious way: the three passes are list recursions, a queued block is appended,
a discarded one leaves at the front.  All later arguments about the plan are
about lists.

## Main results

* `queue_recalculate` — `planner_recalculate` refines `recalculateQueue`.
* `queue_planBufferLine`, `queue_planBufferWait`, `queue_discard` — the queue
  after each operation.
* `recalculateQueue_fixed` — replanning changes nothing but the entry speed,
  the recalculation flag and the trapezoid of a block.
-/

set_option linter.unusedSectionVars false

namespace R2C2Firmware.Ports.MotionPlanner

open R2C2Firmware.Verified.Number
open R2C2Firmware.Verified
open R2C2Firmware.Ports.Config

variable {R : Type*}

/-- Both ring indices are inside the ring. -/
structure Planner.WF (pl : Planner R) : Prop where
  head_lt : pl.blockBufferHead < blockBufferSize
  tail_lt : pl.blockBufferTail < blockBufferSize

/-- There is room exactly if the slot behind the head is not the tail. -/
theorem planQueueFull_eq_false {pl : Planner R} :
    planQueueFull pl = false ↔
      Ring.next blockBufferSize pl.blockBufferHead ≠ pl.blockBufferTail := by
  unfold planQueueFull nextBlockIndex
  rw [beq_eq_false_iff_ne, ne_comm]

/-- The queue is empty exactly if head and tail are the same slot. -/
theorem Planner.WF.queue_eq_nil {pl : Planner R} (h : pl.WF) :
    pl.queue = [] ↔ pl.blockBufferHead = pl.blockBufferTail :=
  Ring.contents_eq_nil h.head_lt h.tail_lt

/-- The first block of a queue that is not empty stands at the tail. -/
theorem Planner.WF.queue_head? {pl : Planner R} (h : pl.WF)
    (hne : pl.blockBufferHead ≠ pl.blockBufferTail) :
    pl.queue.head? = some (pl.blockBuffer pl.blockBufferTail) :=
  Ring.head?_contents h.head_lt h.tail_lt hne

/-- `plan_init` leaves both indices inside the buffer. -/
theorem planInit_wf [Field R] (pl : Planner R) : (planInit pl).WF :=
  ⟨Nat.succ_pos 4, Nat.succ_pos 4⟩

theorem planInit_queue [Field R] (pl : Planner R) : (planInit pl).queue = [] :=
  (planInit_wf pl).queue_eq_nil.2 rfl

/-! ## Discarding -/

/-- Discarding touches the tail index only. -/
theorem planDiscardCurrentBlock_eq (pl : Planner R) :
    planDiscardCurrentBlock pl =
      { pl with
        blockBufferTail := (planDiscardCurrentBlock pl).blockBufferTail } := by
  unfold planDiscardCurrentBlock
  split <;> rfl

/-- Taking a block off keeps both indices inside the buffer. -/
theorem Planner.WF.discard {pl : Planner R} (h : pl.WF) :
    (planDiscardCurrentBlock pl).WF := by
  unfold planDiscardCurrentBlock
  split
  · exact ⟨h.head_lt, Ring.next_lt h.tail_lt⟩
  · exact h

/-- Discarding drops the oldest pending block. -/
theorem queue_discard {pl : Planner R} (h : pl.WF) :
    (planDiscardCurrentBlock pl).queue = pl.queue.tail := by
  unfold planDiscardCurrentBlock
  split
  · next hne => exact Ring.contents_pop h.head_lt h.tail_lt hne
  · next heq =>
      rw [h.queue_eq_nil.2 (not_not.1 heq)]
      rfl

variable [Field R] [LinearOrder R] [HasSqrt R]

/-! ## The passes on the queue -/

/-- The reverse pass: the oldest block and the newest one are left alone. -/
def reverseQueue (cfg : Configuration R) : List (Block R) → List (Block R)
  | [] => []
  | b :: bs => b :: Ring.scanRight (reverseJunction cfg) bs

/-- The forward pass: the oldest block is left alone. -/
def forwardQueue (cfg : Configuration R) : List (Block R) → List (Block R)
  | [] => []
  | b :: bs => b :: Ring.scanLeft (forwardJunction cfg) b bs

/-- The pass with three pointers is the sweep with two. -/
private theorem reverse_walk (cfg : Configuration R) (pl : Planner R) :
    (plannerReversePass cfg pl).blockBuffer =
      (Ring.walkDown blockBufferSize pl.blockBufferTail
        (Ring.sweepDownStep (reverseJunction cfg)) blockBufferSize
        pl.blockBufferHead (pl.blockBuffer, none, none)).1 := by
  have hstep : ∀ i (w : Window R),
      ((reversePassStep cfg i w).buf, (reversePassStep cfg i w).block0,
        (reversePassStep cfg i w).block1) =
      Ring.sweepDownStep (reverseJunction cfg) i (w.buf, w.block0, w.block1) :=
    fun _ _ => rfl
  exact congrArg Prod.fst (Ring.walkDown_map
    (fun w : Window R => (w.buf, w.block0, w.block1)) hstep blockBufferSize
    pl.blockBufferHead (.start pl.blockBuffer))

/-- The backward pass over the ring is the backward pass over the list of queued blocks.
-/
theorem queue_reversePass (cfg : Configuration R) {pl : Planner R}
    (h : pl.WF) :
    (plannerReversePass cfg pl).queue = reverseQueue cfg pl.queue := by
  have hsweep := Ring.contents_sweepDown blockBufferSize pl.blockBufferHead
    pl.blockBufferTail h.head_lt h.tail_lt (reverseJunction cfg)
    pl.blockBuffer
  rw [← reverse_walk] at hsweep
  unfold Planner.queue
  cases hq : Ring.contents blockBufferSize pl.blockBuffer pl.blockBufferHead
      pl.blockBufferTail <;> rw [hq] at hsweep <;> exact hsweep

/-- The pass with three pointers is the sweep with two. -/
private theorem forward_walk (cfg : Configuration R) (pl : Planner R) :
    (plannerForwardPass cfg pl).blockBuffer =
      Ring.sweepUpEnd (forwardJunction cfg)
        (Ring.walkUp blockBufferSize pl.blockBufferHead
          (Ring.sweepUpStep (forwardJunction cfg)) blockBufferSize
          pl.blockBufferTail (pl.blockBuffer, none, none)) := by
  have hstep : ∀ i (w : Window R),
      ((forwardPassStep cfg i w).buf, (forwardPassStep cfg i w).block1,
        (forwardPassStep cfg i w).block2) =
      Ring.sweepUpStep (forwardJunction cfg) i (w.buf, w.block1, w.block2) :=
    fun _ _ => rfl
  exact congrArg (Ring.sweepUpEnd (forwardJunction cfg)) (Ring.walkUp_map
    (fun w : Window R => (w.buf, w.block1, w.block2)) hstep blockBufferSize
    pl.blockBufferTail (.start pl.blockBuffer))

/-- The forward pass over the ring is the forward pass over the list of queued blocks.
-/
theorem queue_forwardPass (cfg : Configuration R) {pl : Planner R}
    (h : pl.WF) :
    (plannerForwardPass cfg pl).queue = forwardQueue cfg pl.queue := by
  have hsweep := Ring.contents_sweepUp blockBufferSize pl.blockBufferHead
    pl.blockBufferTail h.head_lt h.tail_lt (forwardJunction cfg)
    pl.blockBuffer
  rw [← forward_walk] at hsweep
  unfold Planner.queue
  cases hq : Ring.contents blockBufferSize pl.blockBuffer pl.blockBufferHead
      pl.blockBufferTail <;> rw [hq] at hsweep <;> exact hsweep

variable [FloorRing R]

/-- The trapezoids: the newest block is always recalculated. -/
def trapezoidQueue (bs : List (Block R)) : List (Block R) :=
  Ring.pairUp trapezoidJunction (fun b => retrapezoid b minimumPlannerSpeed) bs

/-- The trapezoids are computed along the list of queued blocks, the last one to a stop.
-/
theorem queue_recalculateTrapezoids {pl : Planner R} (h : pl.WF) :
    (plannerRecalculateTrapezoids pl).queue = trapezoidQueue pl.queue := by
  have hstep : (trapezoidStep : Nat → (Nat → Block R) × Option Nat → _) =
      Ring.sweepPairsStep trapezoidJunction := by
    funext i w
    obtain ⟨buf, c⟩ := w
    cases c <;> rfl
  have hsweep := Ring.contents_sweepPairs blockBufferSize pl.blockBufferHead
    pl.blockBufferTail h.head_lt h.tail_lt trapezoidJunction
    (fun b => retrapezoid b minimumPlannerSpeed) pl.blockBuffer
  rw [← hstep] at hsweep
  exact hsweep

/-- All three passes. -/
def recalculateQueue (cfg : Configuration R) (bs : List (Block R)) :
    List (Block R) :=
  trapezoidQueue (forwardQueue cfg (reverseQueue cfg bs))

/-- `planner_recalculate` refines `recalculateQueue`. -/
theorem queue_recalculate (cfg : Configuration R) {pl : Planner R}
    (h : pl.WF) :
    (plannerRecalculate cfg pl).queue = recalculateQueue cfg pl.queue := by
  have hrev : (plannerReversePass cfg pl).WF := ⟨h.head_lt, h.tail_lt⟩
  have hfwd : (plannerForwardPass cfg (plannerReversePass cfg pl)).WF :=
    ⟨h.head_lt, h.tail_lt⟩
  rw [plannerRecalculate, queue_recalculateTrapezoids hfwd,
    queue_forwardPass cfg hrev, queue_reversePass cfg h, recalculateQueue]

/-- Replanning writes blocks and no index. -/
theorem Planner.WF.recalculate (cfg : Configuration R) {pl : Planner R}
    (h : pl.WF) : (plannerRecalculate cfg pl).WF :=
  ⟨h.head_lt, h.tail_lt⟩

/-! ## What replanning never changes -/

/-- The part of a block that `planner_recalculate` leaves alone. -/
def Block.fixed (b : Block R) : Block R :=
  { b with
    entrySpeed := 0
    recalculateFlag := false
    initialRate := 0
    finalRate := 0
    accelerateUntil := 0
    decelerateAfter := 0 }

/-- The backward pass writes speeds and flags, and no field that describes the move. -/
theorem reverseJunction_fixed (cfg : Configuration R) (b n : Block R) :
    (reverseJunction cfg b n).fixed = b.fixed := by
  unfold reverseJunction
  split <;> rfl

/-- The forward pass writes speeds and flags, and no field that describes the move. -/
theorem forwardJunction_fixed (cfg : Configuration R) (p b : Block R) :
    (forwardJunction cfg p b).fixed = b.fixed := by
  unfold forwardJunction
  split
  · dsimp only
    split <;> rfl
  · rfl

/-- A trapezoid is written to fields of its own. -/
theorem calculateTrapezoid_fixed (b : Block R) (entryFactor exitFactor : R) :
    (calculateTrapezoidForBlock b entryFactor exitFactor).fixed = b.fixed := by
  unfold calculateTrapezoidForBlock
  dsimp only
  split <;> rfl

theorem retrapezoid_fixed (b : Block R) (exitSpeed : R) :
    (retrapezoid b exitSpeed).fixed = b.fixed :=
  calculateTrapezoid_fixed b _ _

/-- The trapezoid between two blocks keeps what describes the move. -/
theorem trapezoidJunction_fixed (b n : Block R) :
    (trapezoidJunction b n).fixed = b.fixed := by
  unfold trapezoidJunction
  split
  · exact retrapezoid_fixed b _
  · rfl

/-- Both passes together keep what describes the moves, block by block. -/
theorem speedPasses_fixed (cfg : Configuration R) (bs : List (Block R)) :
    (forwardQueue cfg (reverseQueue cfg bs)).map Block.fixed =
      bs.map Block.fixed := by
  cases bs with
  | nil => rfl
  | cons b bs =>
      rw [reverseQueue, forwardQueue, List.map_cons,
        Ring.scanLeft_map Block.fixed (forwardJunction_fixed cfg),
        Ring.scanRight_map Block.fixed (reverseJunction_fixed cfg),
        List.map_cons]

/-- Replanning changes only entry speeds, flags and trapezoids. -/
theorem recalculateQueue_fixed (cfg : Configuration R) (bs : List (Block R)) :
    (recalculateQueue cfg bs).map Block.fixed = bs.map Block.fixed := by
  rw [recalculateQueue, trapezoidQueue,
    Ring.pairUp_map Block.fixed trapezoidJunction_fixed
      (fun b => retrapezoid_fixed b _), speedPasses_fixed]

/-- A slot written with a block of the same fixed fields keeps those of every slot. -/
private theorem update_fixed (buf : Nat → Block R) (c : Nat) {b : Block R}
    (hb : b.fixed = (buf c).fixed) (j : Nat) :
    (Function.update buf c b j).fixed = (buf j).fixed := by
  by_cases hj : j = c
  · subst hj
    rw [Function.update_self, hb]
  · rw [Function.update_of_ne hj]

/-- The kernel of the backward pass keeps the fixed fields of every slot of the ring. -/
private theorem reverseKernel_fixed (cfg : Configuration R)
    (previous current next : Option Nat) (buf : Nat → Block R) (j : Nat) :
    (plannerReversePassKernel cfg previous current next buf j).fixed =
      (buf j).fixed := by
  unfold plannerReversePassKernel
  split
  · exact update_fixed _ _ (reverseJunction_fixed cfg _ _) j
  · rfl

/-- The kernel of the forward pass keeps the fixed fields of every slot of the ring. -/
private theorem forwardKernel_fixed (cfg : Configuration R)
    (previous current next : Option Nat) (buf : Nat → Block R) (j : Nat) :
    (plannerForwardPassKernel cfg previous current next buf j).fixed =
      (buf j).fixed := by
  unfold plannerForwardPassKernel
  split
  · exact update_fixed _ _ (forwardJunction_fixed cfg _ _) j
  · rfl

/-- Replanning keeps what describes the move in every slot of the ring, queued or not.
-/
theorem plannerRecalculate_fixed (cfg : Configuration R) (pl : Planner R)
    (j : Nat) :
    ((plannerRecalculate cfg pl).blockBuffer j).fixed =
      (pl.blockBuffer j).fixed := by
  have hrev : ((plannerReversePass cfg pl).blockBuffer j).fixed =
      (pl.blockBuffer j).fixed := by
    refine Ring.walkDown_invariant (fun w : Window R => (w.buf j).fixed) ?_ _ _ _
    intro i w
    exact reverseKernel_fixed cfg (some i) w.block0 w.block1 w.buf j
  have hfwd : ∀ pl : Planner R,
      ((plannerForwardPass cfg pl).blockBuffer j).fixed =
        (pl.blockBuffer j).fixed := by
    intro pl
    refine (forwardKernel_fixed cfg _ _ none _ j).trans ?_
    refine Ring.walkUp_invariant (fun w : Window R => (w.buf j).fixed) ?_ _ _ _
    intro i w
    exact forwardKernel_fixed cfg w.block1 w.block2 (some i) w.buf j
  have htrap : ∀ pl : Planner R,
      ((plannerRecalculateTrapezoids pl).blockBuffer j).fixed =
        (pl.blockBuffer j).fixed := by
    intro pl
    have hwalk : ((Ring.walkUp blockBufferSize pl.blockBufferHead trapezoidStep
        blockBufferSize pl.blockBufferTail (pl.blockBuffer, none)).1 j).fixed =
        (pl.blockBuffer j).fixed := by
      refine Ring.walkUp_invariant
        (fun w : (Nat → Block R) × Option Nat => (w.1 j).fixed) ?_ _ _ _
      rintro i ⟨buf, _ | current⟩
      · rfl
      · exact update_fixed _ _ (trapezoidJunction_fixed _ _) j
    unfold plannerRecalculateTrapezoids
    dsimp only
    generalize Ring.walkUp blockBufferSize pl.blockBufferHead trapezoidStep
      blockBufferSize pl.blockBufferTail (pl.blockBuffer, none) = w at hwalk ⊢
    rcases w with ⟨buf, _ | next⟩
    · exact hwalk
    · exact (update_fixed _ _ (retrapezoid_fixed _ _) j).trans hwalk
  rw [plannerRecalculate, htrap, hfwd, hrev]

/-! ## The queueing functions -/

/-- The queue after the end of a queueing function. -/
theorem queue_finishPlan (cfg : Configuration R) {pl : Planner R}
    (h : pl.WF) :
    (finishPlan cfg pl).queue =
      if pl.accelerationManagerEnabled then recalculateQueue cfg pl.queue
      else pl.queue := by
  unfold finishPlan
  split
  · exact queue_recalculate cfg h
  · rfl

theorem Planner.WF.finishPlan (cfg : Configuration R) {pl : Planner R}
    (h : pl.WF) : (finishPlan cfg pl).WF := by
  unfold MotionPlanner.finishPlan
  split
  · exact h.recalculate cfg
  · exact h

theorem Planner.WF.publishLine (cfg : Configuration R)
    (pAction : ActionRequest R) {pl : Planner R} (h : pl.WF) :
    (publishLine cfg pAction pl).WF :=
  ⟨Ring.next_lt h.head_lt, h.tail_lt⟩

/-- With room, a published move stands behind the blocks already queued. -/
theorem queue_publishLine (cfg : Configuration R) (pAction : ActionRequest R)
    {pl : Planner R} (h : pl.WF) (hroom : planQueueFull pl = false) :
    (publishLine cfg pAction pl).queue =
      pl.queue ++ [newBlock cfg pAction pl] :=
  Ring.contents_push h.head_lt h.tail_lt (planQueueFull_eq_false.1 hroom) _

/-- A zero-length request leaves the queue alone; any other one is appended and
the plan recalculated. -/
theorem queue_planBufferLine (cfg : Configuration R)
    (pAction : ActionRequest R) {pl : Planner R} (h : pl.WF)
    (hroom : planQueueFull pl = false) :
    (planBufferLine cfg pAction pl).1.queue =
      if zeroLength cfg pAction pl then pl.queue
      else if pl.accelerationManagerEnabled then
        recalculateQueue cfg (pl.queue ++ [newBlock cfg pAction pl])
      else pl.queue ++ [newBlock cfg pAction pl] := by
  unfold planBufferLine
  split
  · exact Ring.contents_update_head _ h.head_lt h.tail_lt _
  · dsimp only
    rw [queue_finishPlan cfg (h.publishLine cfg pAction),
      queue_publishLine cfg pAction h hroom]
    rfl

/-- A request for a move keeps both indices inside the buffer, dropped or not. -/
theorem Planner.WF.planBufferLine (cfg : Configuration R)
    (pAction : ActionRequest R) {pl : Planner R} (h : pl.WF) :
    (planBufferLine cfg pAction pl).1.WF := by
  unfold MotionPlanner.planBufferLine
  split
  · exact ⟨h.head_lt, h.tail_lt⟩
  · exact (h.publishLine cfg pAction).finishPlan cfg

theorem Planner.WF.publishWait (pAction : ActionRequest R) {pl : Planner R}
    (h : pl.WF) : (publishWait pAction pl).WF :=
  ⟨Ring.next_lt h.head_lt, h.tail_lt⟩

/-- A wait is always appended. -/
theorem queue_planBufferWait (cfg : Configuration R)
    (pAction : ActionRequest R) {pl : Planner R} (h : pl.WF)
    (hroom : planQueueFull pl = false) :
    (planBufferWait cfg pAction pl).1.queue =
      if pl.accelerationManagerEnabled then
        recalculateQueue cfg (pl.queue ++ [waitBlock pAction.actionType
          (pl.blockBuffer pl.blockBufferHead)])
      else pl.queue ++ [waitBlock pAction.actionType
        (pl.blockBuffer pl.blockBufferHead)] := by
  have hpub : (publishWait pAction pl).queue = pl.queue ++
      [waitBlock pAction.actionType (pl.blockBuffer pl.blockBufferHead)] :=
    Ring.contents_push h.head_lt h.tail_lt (planQueueFull_eq_false.1 hroom) _
  unfold planBufferWait
  dsimp only
  rw [queue_finishPlan cfg (h.publishWait pAction), hpub]
  rfl

/-- A request for a wait keeps both indices inside the buffer. -/
theorem Planner.WF.planBufferWait (cfg : Configuration R)
    (pAction : ActionRequest R) {pl : Planner R} (h : pl.WF) :
    (planBufferWait cfg pAction pl).1.WF :=
  (h.publishWait pAction).finishPlan cfg

/-- Outside the blocks, `finishPlan` changes nothing. -/
theorem finishPlan_eq (cfg : Configuration R) (pl : Planner R) :
    finishPlan cfg pl =
      { pl with blockBuffer := (finishPlan cfg pl).blockBuffer } := by
  unfold finishPlan
  split <;> rfl

/-- The end of a request replans, and keeps the fixed fields of every slot of the ring.
-/
theorem finishPlan_fixed (cfg : Configuration R) (pl : Planner R) (j : Nat) :
    ((finishPlan cfg pl).blockBuffer j).fixed = (pl.blockBuffer j).fixed := by
  unfold finishPlan
  split
  · exact plannerRecalculate_fixed cfg pl j
  · rfl

section Requests

variable {cfg : Configuration R} {pAction : ActionRequest R} {pl : Planner R}

/-- A move without length is dropped; what it wrote so far stays in the slot behind the
queue. -/
theorem planBufferLine_fst_of_zeroLength
    (h : zeroLength cfg pAction pl = true) :
    (planBufferLine cfg pAction pl).1 =
      { pl with
        blockBuffer := Function.update pl.blockBuffer pl.blockBufferHead
          (traceBlock (targetSteps cfg pAction.target) pl.position
            (pl.blockBuffer pl.blockBufferHead)) } := by
  rw [planBufferLine, if_pos h]

/-- A move with some length is published, and the queue is replanned. -/
theorem planBufferLine_fst (h : zeroLength cfg pAction pl = false) :
    (planBufferLine cfg pAction pl).1 =
      finishPlan cfg (publishLine cfg pAction pl) := by
  rw [planBufferLine, h]
  rfl

/-- A request appends at most its own block; replanning leaves the fixed part
of every block alone. -/
theorem queue_planBufferLine_fixed (hwf : pl.WF)
    (hroom : planQueueFull pl = false) :
    (planBufferLine cfg pAction pl).1.queue.map Block.fixed =
      (pl.queue ++ if zeroLength cfg pAction pl then []
        else [newBlock cfg pAction pl]).map Block.fixed := by
  rw [queue_planBufferLine cfg pAction hwf hroom]
  split
  · rw [List.append_nil]
  · split
    · rw [recalculateQueue_fixed]
    · rfl

/-- A wait is queued behind the blocks already there, and all keep what describes them.
-/
theorem queue_planBufferWait_fixed (hwf : pl.WF)
    (hroom : planQueueFull pl = false) :
    (planBufferWait cfg pAction pl).1.queue.map Block.fixed =
      (pl.queue ++ [waitBlock pAction.actionType
        (pl.blockBuffer pl.blockBufferHead)]).map Block.fixed := by
  rw [queue_planBufferWait cfg pAction hwf hroom]
  split
  · rw [recalculateQueue_fixed]
  · rfl

/-- The fields of a new block that the stepper traces. -/
theorem newBlock_motion :
    (newBlock cfg pAction pl).actionType = .move ∧
      (newBlock cfg pAction pl).directionBits =
        moveDirectionBits (targetSteps cfg pAction.target) pl.position ∧
      (newBlock cfg pAction pl).steps =
        moveSteps (targetSteps cfg pAction.target) pl.position ∧
      (newBlock cfg pAction pl).stepEventCount =
        moveEventCount
          (moveSteps (targetSteps cfg pAction.target) pl.position) ∧
      (newBlock cfg pAction pl).checkEndstops =
        decide (pAction.actionType ≠ .move) := by
  unfold newBlock
  dsimp only
  split <;> exact ⟨rfl, rfl, rfl, rfl, rfl⟩

end Requests

end R2C2Firmware.Ports.MotionPlanner
