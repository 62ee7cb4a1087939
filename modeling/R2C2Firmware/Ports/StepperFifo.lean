import R2C2Firmware.Ports.StepperFrame

/-!
# The ring as a bounded queue

The planner writes at the head of the ring, the interrupt reads at the tail,
and each keeps indices or a raw pointer of its own.  This file runs both against
the two histories that matter: the blocks accepted so far and the blocks
discarded so far.

Block number `k`, counted from the first one accepted, is written to slot
`k mod BLOCK_BUFFER_SIZE`.  Until it is discarded nothing writes there except
the replanning, and that changes speeds and trapezoid only: what
`Block.fixed` keeps stays as it was accepted.

## Main results

* `ring_fifo` — the ring is a bounded queue, in every run.
-/

set_option linter.unusedSectionVars false

namespace R2C2Firmware.Ports.Stepper

open R2C2Firmware.Verified
open R2C2Firmware.Verified.Number
open R2C2Firmware.Ports.Config
open R2C2Firmware.Ports.MotionPlanner

variable {R : Type*}

/-! ## The interrupt and its pointer -/

/-- What the interrupt does to the plan and to `current_block`: it has dropped
the block, or the plan is the same and so is the pointer, unless a block was
taken up. -/
def Points (m m' : Machine R) : Prop :=
  (m'.stepper.currentBlock = none ∧ Discards m m') ∨
    (m'.planner = m.planner ∧
      (m'.stepper.currentBlock = m.stepper.currentBlock ∨
        m'.stepper.currentBlock = planGetCurrentBlock m.planner))

theorem moveInterrupt_points (inp : StInputs) (b : Block R) (m : Machine R) :
    Points m (moveInterrupt inp b m) := by
  have hdis := moveInterrupt_discards inp b m
  have htracing : (stepEvent inp b m).stepper.currentBlock =
      m.stepper.currentBlock := by
    have hset := congrArg Prod.fst (setStepPins_frame
      { m with
        stepper := checkEndstops inp b
          { traceAxes b m.stepper with
            stepEventsCompleted :=
              uint32 ((traceAxes b m.stepper).stepEventsCompleted + 1) }
        gpio := clearStepPins (traceAxes b m.stepper) m.gpio }).2
    refine hset.trans ?_
    show (checkEndstops inp b _).currentBlock = _
    rw [checkEndstops, traceAxes_eq]
    split <;> rfl
  unfold moveInterrupt at hdis ⊢
  dsimp only at hdis ⊢
  split
  · refine .inr ⟨?_, .inl ?_⟩
    · rw [(trapezoidTick_frame _ _).1]
      exact (setStepPins_frame _).1
    · exact (congrArg Prod.fst (trapezoidTick_frame _ _).2.2).trans htracing
  · next hge =>
    rw [if_neg hge] at hdis
    exact .inl ⟨rfl, hdis⟩

theorem serveBlock_points (inp : StInputs) (m : Machine R) :
    Points m (serveBlock inp m) := by
  unfold serveBlock
  split
  · dsimp only
    split
    · exact moveInterrupt_points inp _ m
    · unfold waitInterrupt
      dsimp only
      split
      · exact .inl ⟨rfl, rfl, .inr rfl⟩
      · exact .inr ⟨rfl, .inl rfl⟩
    · exact .inr ⟨rfl, .inl rfl⟩
    · exact .inr ⟨rfl, .inl rfl⟩
  · exact .inr ⟨rfl, .inl rfl⟩

theorem popBlock_pointer (m : Machine R) :
    (popBlock m).stepper.currentBlock = m.stepper.currentBlock ∨
      (popBlock m).stepper.currentBlock = planGetCurrentBlock m.planner := by
  unfold popBlock
  split
  · exact .inl rfl
  · split
    · next i hget => exact .inr hget.symm
    · exact .inl rfl

theorem settlePins_pointer (m : Machine R) :
    (settlePins m).stepper.currentBlock = m.stepper.currentBlock := by
  unfold settlePins
  split <;> rfl

theorem stInterrupt_points (inp : StInputs) (m : Machine R) :
    Points m (stInterrupt inp m) := by
  have hdis := stInterrupt_discards inp m
  unfold stInterrupt at hdis ⊢
  split
  · exact .inr ⟨rfl, .inl rfl⟩
  · next hbusy =>
    rw [if_neg hbusy] at hdis
    generalize hm₀ : ({ m with stepper := { m.stepper with busy := true } } :
      Machine R) = m₀ at hdis ⊢
    have hplan₀ : m₀.planner = m.planner := by rw [← hm₀]
    have hcur₀ : m₀.stepper.currentBlock = m.stepper.currentBlock := by
      rw [← hm₀]
    have hpop := (popBlock_frame m₀).2
    have hptr := popBlock_pointer m₀
    rw [hplan₀] at hpop hptr
    rw [hcur₀] at hptr
    rcases serveBlock_points inp (popBlock m₀) with ⟨hnone, -⟩ | ⟨hplan, hcur⟩
    · exact .inl ⟨(settlePins_pointer _).trans hnone, hdis⟩
    · refine .inr ⟨?_, ?_⟩
      · exact ((settlePins_frame _).2.trans hplan).trans hpop
      · show (settlePins _).stepper.currentBlock = _ ∨
          (settlePins _).stepper.currentBlock = _
        rw [settlePins_pointer]
        rw [hpop] at hcur
        rcases hcur with hcur | hcur
        · rw [hcur]
          exact hptr
        · exact .inr hcur

/-! ## Histories -/

/-- The block the interrupt discards: the one in the tail slot, when the tail
moves on. -/
def discardedBy [Field R] (inp : StInputs) (m : Machine R) : List (Block R) :=
  if (stInterrupt inp m).planner.blockBufferTail = m.planner.blockBufferTail then
    []
  else [(m.planner.blockBuffer m.planner.blockBufferTail).fixed]

variable [Field R] [LinearOrder R] [HasSqrt R] [FloorRing R]

/-- The block a request adds to the queue, as it is accepted.  A zero-length
move adds none. -/
def acceptedBy (pAction : ActionRequest R) (m : Machine R) : List (Block R) :=
  match pAction.actionType with
  | .move | .moveEndstop =>
      if zeroLength m.config pAction m.planner then []
      else [(newBlock m.config pAction m.planner).fixed]
  | .wait | .waitTemps =>
      [(waitBlock pAction.actionType
        (m.planner.blockBuffer m.planner.blockBufferHead)).fixed]

/-- Runs from `plan_init`, with the blocks accepted and the blocks discarded so
far, oldest first.  Requests come when the ring has room.  Whatever else
happens leaves the ring and the pointer of the interrupt alone. -/
inductive FifoRun : List (Block R) → List (Block R) → Machine R → Prop
  | init (m : Machine R) (pl : Planner R) : m.planner = planInit pl →
      m.stepper.currentBlock = none → FifoRun [] [] m
  | request {acc dis : List (Block R)} {m : Machine R}
      (pAction : ActionRequest R) : FifoRun acc dis m →
      planQueueFull m.planner = false →
      FifoRun (acc ++ acceptedBy pAction m) dis (bufferAction pAction m)
  | interrupt {acc dis : List (Block R)} {m : Machine R} (inp : StInputs) :
      FifoRun acc dis m →
      FifoRun acc (dis ++ discardedBy inp m) (stInterrupt inp m)
  | other {acc dis : List (Block R)} {m m' : Machine R} : FifoRun acc dis m →
      m'.planner.blockBuffer = m.planner.blockBuffer →
      m'.planner.blockBufferHead = m.planner.blockBufferHead →
      m'.planner.blockBufferTail = m.planner.blockBufferTail →
      m'.stepper.currentBlock = m.stepper.currentBlock → FifoRun acc dis m'

/-- The ring against the histories. -/
structure Fifo (acc dis : List (Block R)) (m : Machine R) : Prop where
  head : m.planner.blockBufferHead = acc.length % blockBufferSize
  tail : m.planner.blockBufferTail = dis.length % blockBufferSize
  pending : acc = dis ++ m.planner.queue.map Block.fixed
  current : ∀ i, m.stepper.currentBlock = some i →
    i = m.planner.blockBufferTail

namespace Fifo

variable {acc dis : List (Block R)} {m : Machine R}

theorem wf (h : Fifo acc dis m) : m.planner.WF := by
  have hpos : 0 < blockBufferSize := Nat.succ_pos 4
  refine ⟨?_, ?_⟩
  · rw [h.head]
    exact Nat.mod_lt _ hpos
  · rw [h.tail]
    exact Nat.mod_lt _ hpos

theorem length_eq (h : Fifo acc dis m) :
    acc.length = dis.length + m.planner.queue.length := by
  have hlen := congrArg List.length h.pending
  rwa [List.length_append, List.length_map] at hlen

theorem init {pl : Planner R} (hpl : m.planner = planInit pl)
    (hcur : m.stepper.currentBlock = none) : Fifo [] [] m := by
  refine ⟨?_, ?_, ?_, ?_⟩
  · rw [hpl]
    rfl
  · rw [hpl]
    rfl
  · rw [hpl, planInit_queue]
    rfl
  · intro i hi
    rw [hcur] at hi
    exact absurd hi (by simp)

theorem other {m' : Machine R} (h : Fifo acc dis m)
    (hbuf : m'.planner.blockBuffer = m.planner.blockBuffer)
    (hhead : m'.planner.blockBufferHead = m.planner.blockBufferHead)
    (htail : m'.planner.blockBufferTail = m.planner.blockBufferTail)
    (hcur : m'.stepper.currentBlock = m.stepper.currentBlock) :
    Fifo acc dis m' := by
  have hqueue : m'.planner.queue = m.planner.queue := by
    rw [Planner.queue, Planner.queue, hbuf, hhead, htail]
  refine ⟨hhead.trans h.head, htail.trans h.tail, ?_, ?_⟩
  · rw [hqueue]
    exact h.pending
  · rw [hcur, htail]
    exact h.current

end Fifo

/-- What a request does to the ring. -/
structure Requested (pAction : ActionRequest R) (m : Machine R)
    (pl : Planner R) : Prop where
  head : pl.blockBufferHead =
    (m.planner.blockBufferHead + (acceptedBy pAction m).length) %
      blockBufferSize
  tail : pl.blockBufferTail = m.planner.blockBufferTail
  queue : pl.queue.map Block.fixed =
    m.planner.queue.map Block.fixed ++ acceptedBy pAction m

theorem nextBlockIndex_eq {i : Nat} (hi : i < blockBufferSize) :
    nextBlockIndex i = (i + 1) % blockBufferSize := by
  have hslot := Ring.next_slot hi 0
  rw [Ring.slot_zero hi] at hslot
  exact hslot

theorem finishPlan_head (cfg : Configuration R) (pl : Planner R) :
    (finishPlan cfg pl).blockBufferHead = pl.blockBufferHead ∧
      (finishPlan cfg pl).blockBufferTail = pl.blockBufferTail := by
  rw [finishPlan_eq]
  exact ⟨rfl, rfl⟩

section Request

variable {m : Machine R} {pAction : ActionRequest R}

theorem requested_line (hwf : m.planner.WF)
    (hroom : planQueueFull m.planner = false)
    (hline : acceptedBy pAction m =
      if zeroLength m.config pAction m.planner then []
      else [(newBlock m.config pAction m.planner).fixed]) :
    Requested pAction m (planBufferLine m.config pAction m.planner).1 := by
  have hq := @queue_planBufferLine_fixed R _ _ _ _ m.config pAction m.planner
    hwf hroom
  by_cases hz : zeroLength m.config pAction m.planner = true
  · rw [if_pos hz] at hline hq
    rw [List.append_nil] at hq
    refine ⟨?_, ?_, ?_⟩
    · rw [planBufferLine_fst_of_zeroLength hz, hline, List.length_nil,
        Nat.add_zero, Nat.mod_eq_of_lt hwf.head_lt]
    · rw [planBufferLine_fst_of_zeroLength hz]
    · rw [hq, hline, List.append_nil]
  · rw [if_neg hz] at hline hq
    rw [Bool.not_eq_true] at hz
    refine ⟨?_, ?_, ?_⟩
    · rw [planBufferLine_fst hz, (finishPlan_head _ _).1, hline]
      exact nextBlockIndex_eq hwf.head_lt
    · rw [planBufferLine_fst hz, (finishPlan_head _ _).2]
      rfl
    · rw [hq, hline, List.map_append]
      rfl

theorem requested_wait (hwf : m.planner.WF)
    (hroom : planQueueFull m.planner = false)
    (hwait : acceptedBy pAction m = [(waitBlock pAction.actionType
      (m.planner.blockBuffer m.planner.blockBufferHead)).fixed]) :
    Requested pAction m (planBufferWait m.config pAction m.planner).1 := by
  have hq := @queue_planBufferWait_fixed R _ _ _ _ m.config pAction m.planner
    hwf hroom
  refine ⟨?_, ?_, ?_⟩
  · rw [planBufferWait, (finishPlan_head _ _).1, hwait]
    exact nextBlockIndex_eq hwf.head_lt
  · rw [planBufferWait, (finishPlan_head _ _).2]
    rfl
  · rw [hq, hwait, List.map_append]
    rfl

theorem bufferAction_requested (pAction : ActionRequest R)
    (hwf : m.planner.WF) (hroom : planQueueFull m.planner = false) :
    Requested pAction m (bufferAction pAction m).planner := by
  rw [(bufferAction_frame pAction m).2.1]
  unfold planBufferAction
  cases hkind : pAction.actionType with
  | move => exact requested_line hwf hroom (by rw [acceptedBy, hkind])
  | moveEndstop => exact requested_line hwf hroom (by rw [acceptedBy, hkind])
  | wait => exact requested_wait hwf hroom (by simp only [acceptedBy, hkind])
  | waitTemps =>
      exact requested_wait hwf hroom (by simp only [acceptedBy, hkind])

end Request

namespace Fifo

variable {acc dis : List (Block R)} {m : Machine R}

theorem request (h : Fifo acc dis m) (pAction : ActionRequest R)
    (hroom : planQueueFull m.planner = false) :
    Fifo (acc ++ acceptedBy pAction m) dis (bufferAction pAction m) := by
  obtain ⟨hhead, htail, hqueue⟩ :=
    bufferAction_requested pAction h.wf hroom
  refine ⟨?_, htail.trans h.tail, ?_, ?_⟩
  · rw [hhead, h.head, List.length_append, Nat.mod_add_mod]
  · rw [hqueue, ← List.append_assoc, ← h.pending]
  · rw [(bufferAction_frame pAction m).2.2.2, htail]
    exact h.current

/-- A tail that moves on has left the oldest block behind. -/
theorem discard (h : Fifo acc dis m)
    (hne : m.planner.blockBufferHead ≠ m.planner.blockBufferTail) :
    (planDiscardCurrentBlock m.planner).blockBufferTail =
        (dis.length + 1) % blockBufferSize ∧
      (planDiscardCurrentBlock m.planner).blockBufferTail ≠
        m.planner.blockBufferTail ∧
      acc = dis ++ [(m.planner.blockBuffer m.planner.blockBufferTail).fixed] ++
        (planDiscardCurrentBlock m.planner).queue.map Block.fixed := by
  have hnext : (planDiscardCurrentBlock m.planner).blockBufferTail =
      nextBlockIndex m.planner.blockBufferTail := by
    rw [planDiscardCurrentBlock, if_pos hne]
  have hmod := nextBlockIndex_eq h.wf.tail_lt
  refine ⟨?_, ?_, ?_⟩
  · rw [hnext, hmod, h.tail, Nat.mod_add_mod]
  · have hlt := h.wf.tail_lt
    rw [hnext, hmod]
    unfold blockBufferSize at hlt ⊢
    omega
  · rw [queue_discard h.wf, List.append_assoc, List.singleton_append,
      ← List.map_cons,
      List.cons_head?_tail (h.wf.queue_head? hne)]
    exact h.pending

theorem interrupt (h : Fifo acc dis m) (inp : StInputs) :
    Fifo acc (dis ++ discardedBy inp m) (stInterrupt inp m) := by
  have hsame : ∀ {m' : Machine R}, m'.planner = m.planner →
      (∀ i, m'.stepper.currentBlock = some i →
        i = m.planner.blockBufferTail) → Fifo acc dis m' := by
    intro m' hplan hcur
    refine ⟨?_, ?_, ?_, ?_⟩
    · rw [hplan, h.head]
    · rw [hplan, h.tail]
    · rw [hplan]
      exact h.pending
    · rw [hplan]
      exact hcur
  rcases stInterrupt_points inp m with ⟨hnone, -, hplan⟩ | ⟨hplan, hcur⟩
  · have hnull : ∀ i, (stInterrupt inp m).stepper.currentBlock = some i →
        i = m.planner.blockBufferTail := by
      intro i hi
      rw [hnone] at hi
      exact absurd hi (by simp)
    by_cases hne : m.planner.blockBufferHead = m.planner.blockBufferTail
    · -- nothing was pending, so nothing was discarded
      have heq : (stInterrupt inp m).planner = m.planner := by
        rcases hplan with hplan | hplan
        · exact hplan
        · rw [hplan, planDiscardCurrentBlock, if_neg (not_not.2 hne)]
      rw [discardedBy, heq, if_pos rfl, List.append_nil]
      exact hsame heq hnull
    · rcases hplan with hplan | hplan
      · rw [discardedBy, hplan, if_pos rfl, List.append_nil]
        exact hsame hplan hnull
      · obtain ⟨htail, hmoved, hpending⟩ := h.discard hne
        rw [discardedBy, hplan, if_neg hmoved]
        refine ⟨?_, ?_, ?_, ?_⟩
        · rw [hplan, planDiscardCurrentBlock_eq]
          exact h.head
        · rw [hplan, htail, List.length_append]
          rfl
        · rw [hplan]
          exact hpending
        · intro i hi
          rw [hnone] at hi
          exact absurd hi (by simp)
  · rw [discardedBy, hplan, if_pos rfl, List.append_nil]
    refine hsame hplan ?_
    intro i hi
    rcases hcur with hcur | hcur
    · exact h.current i (hcur ▸ hi)
    · rw [hcur, planGetCurrentBlock] at hi
      split at hi
      · exact absurd hi (by simp)
      · exact (Option.some.inj hi).symm

end Fifo

/-- Along every run the ring agrees with the histories. -/
theorem FifoRun.fifo {acc dis : List (Block R)} {m : Machine R}
    (h : FifoRun acc dis m) : Fifo acc dis m := by
  induction h with
  | init m pl hpl hcur => exact Fifo.init hpl hcur
  | request pAction _ hroom ih => exact ih.request pAction hroom
  | interrupt inp _ ih => exact ih.interrupt inp
  | other _ hbuf hhead htail hcur ih => exact ih.other hbuf hhead htail hcur

namespace Fifo

variable {acc dis : List (Block R)} {m : Machine R}

theorem current_block (h : Fifo acc dis m) :
    (planGetCurrentBlock m.planner).map
      (fun i => (m.planner.blockBuffer i).fixed) = acc[dis.length]? := by
  have hhead : acc[dis.length]? = (m.planner.queue.map Block.fixed).head? := by
    have hget := congrArg (·[dis.length]?) h.pending
    rw [List.head?_eq_getElem?]
    refine hget.trans ?_
    rw [List.getElem?_append_right (Nat.le_refl _), Nat.sub_self]
  rw [hhead, planGetCurrentBlock, List.head?_map]
  split
  · next heq =>
    rw [h.wf.queue_eq_nil.2 heq]
    rfl
  · next hne =>
    rw [h.wf.queue_head? hne]
    rfl

theorem full_iff (h : Fifo acc dis m) :
    planQueueFull m.planner = true ↔
      acc.length = dis.length + (blockBufferSize - 1) := by
  have hlen : m.planner.queue.length = Ring.count blockBufferSize
      m.planner.blockBufferHead m.planner.blockBufferTail :=
    Ring.length_contents _ _ _ _
  have hnext := Ring.next_eq_iff h.wf.head_lt h.wf.tail_lt
  have hacc := h.length_eq
  rw [planQueueFull, beq_iff_eq, nextBlockIndex, eq_comm, hnext, ← hlen]
  unfold blockBufferSize
  omega

theorem empty_iff (h : Fifo acc dis m) :
    planQueueEmpty m.planner = true ↔ acc.length = dis.length := by
  have hacc := h.length_eq
  rw [planQueueEmpty, beq_iff_eq, ← h.wf.queue_eq_nil,
    ← List.length_eq_zero_iff]
  omega

/-- Block number `k` is in slot `k mod BLOCK_BUFFER_SIZE`. -/
theorem slot (h : Fifo acc dis m) {k : Nat} {b : Block R}
    (hk : dis.length ≤ k) (hb : acc[k]? = some b) :
    (m.planner.blockBuffer (k % blockBufferSize)).fixed = b := by
  rw [h.pending, List.getElem?_append_right hk, List.getElem?_map,
    Planner.queue] at hb
  obtain ⟨c, hc, rfl⟩ := Option.map_eq_some_iff.1 hb
  obtain ⟨hlt, rfl⟩ := List.getElem?_eq_some_iff.1 hc
  have hslot : Ring.slot blockBufferSize m.planner.blockBufferTail
      (k - dis.length) = k % blockBufferSize := by
    rw [Ring.slot, h.tail, Nat.mod_add_mod, Nat.add_sub_cancel' hk]
  rw [Ring.getElem_contents, hslot]

/-- The head slot is free. -/
theorem head_free (h : Fifo acc dis m) {k : Nat} (hk : dis.length ≤ k)
    (hlt : k < acc.length) :
    k % blockBufferSize ≠ m.planner.blockBufferHead := by
  have hlen := h.length_eq
  have hcount : m.planner.queue.length < blockBufferSize := by
    rw [Planner.queue, Ring.length_contents]
    exact Ring.count_lt (Nat.succ_pos 4) _ _
  rw [h.head]
  unfold blockBufferSize at hcount ⊢
  omega

end Fifo

/-- The ring is a bounded queue: the indices stay inside it; what
`plan_get_current_block` returns is the oldest block accepted and not yet
discarded; blocks are discarded in the order in which they were accepted;
`plan_queue_full` and `plan_queue_empty` count them; the interrupt points at the
tail slot; a pending block keeps its slot and its fixed part; and a zero-length
request touches no pending block. -/
theorem ring_fifo {acc dis : List (Block R)} {m : Machine R}
    (h : FifoRun acc dis m) :
    (m.planner.blockBufferHead < blockBufferSize ∧
      m.planner.blockBufferTail < blockBufferSize) ∧
    (planGetCurrentBlock m.planner).map
      (fun i => (m.planner.blockBuffer i).fixed) = acc[dis.length]? ∧
    dis <+: acc ∧
    (planQueueFull m.planner = true ↔
      acc.length = dis.length + (blockBufferSize - 1)) ∧
    (planQueueEmpty m.planner = true ↔ acc.length = dis.length) ∧
    (∀ i, m.stepper.currentBlock = some i →
      i = m.planner.blockBufferTail) ∧
    (∀ k b, dis.length ≤ k → acc[k]? = some b →
      (m.planner.blockBuffer (k % blockBufferSize)).fixed = b) ∧
    ∀ pAction : ActionRequest R, pAction.actionType = .move ∨
        pAction.actionType = .moveEndstop →
      zeroLength m.config pAction m.planner = true →
      ∀ k, dis.length ≤ k → k < acc.length →
        (bufferAction pAction m).planner.blockBuffer (k % blockBufferSize) =
          m.planner.blockBuffer (k % blockBufferSize) := by
  have hf := h.fifo
  refine ⟨⟨hf.wf.head_lt, hf.wf.tail_lt⟩, hf.current_block, ⟨_, hf.pending.symm⟩,
    hf.full_iff, hf.empty_iff, hf.current, fun k b => hf.slot, ?_⟩
  intro pAction hkind hz k hk hlt
  have hplan : (bufferAction pAction m).planner =
      (planBufferLine m.config pAction m.planner).1 := by
    rw [(bufferAction_frame pAction m).2.1, planBufferAction]
    rcases hkind with hkind | hkind <;> rw [hkind]
  rw [hplan, planBufferLine_fst_of_zeroLength hz]
  exact Function.update_of_ne (hf.head_free hk hlt) _ _

/-- One step along X, on exact rationals. -/
def oneStep : ActionRequest ℚ := ⟨.move, ⟨1 / 80, 0, 0, 0, 600, false⟩⟩

/-- The next step along X, at half the speed. -/
def secondStep : ActionRequest ℚ := ⟨.move, ⟨2 / 80, 0, 0, 0, 300, false⟩⟩

/-- After two requests for one step each and the interrupt that emits the first, the
first block accepted has been discarded, and the second is the current one. -/
theorem ring_fifo_secondStep :
    let m₀ := Machine.start Configuration.default
    let m₁ := bufferAction oneStep m₀
    let m₂ := bufferAction secondStep m₁
    let inp : StInputs := ⟨false, fun _ _ => false⟩
    let accepted := acceptedBy oneStep m₀ ++ acceptedBy secondStep m₁
    (accepted.length = 2 ∧ (discardedBy inp m₂).length = 1) ∧
      discardedBy inp m₂ <+: accepted ∧
      (planGetCurrentBlock (stInterrupt inp m₂).planner).map
        (fun i => ((stInterrupt inp m₂).planner.blockBuffer i).fixed) = accepted[1]? ∧
      planQueueEmpty (stInterrupt inp m₂).planner = false := by
  intro m₀ m₁ m₂ inp accepted
  have hlengths : accepted.length = 2 ∧ (discardedBy inp m₂).length = 1 :=
    ⟨by decide +kernel, by decide +kernel⟩
  have hstart : FifoRun (R := ℚ) [] [] m₀ := .init _ .zero rfl rfl
  have hrun : FifoRun accepted (discardedBy inp m₂) (stInterrupt inp m₂) :=
    ((hstart.request oneStep rfl).request secondStep (by decide +kernel)).interrupt inp
  obtain ⟨-, hcurrent, hprefix, -, hempty, -⟩ := ring_fifo hrun
  rw [hlengths.1, hlengths.2] at hempty
  rw [hlengths.2] at hcurrent
  refine ⟨hlengths, hprefix, hcurrent, ?_⟩
  rw [← Bool.not_eq_true, hempty]
  decide

end R2C2Firmware.Ports.Stepper
