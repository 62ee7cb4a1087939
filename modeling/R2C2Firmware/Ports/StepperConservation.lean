import R2C2Firmware.Verified.Bresenham
import R2C2Firmware.Ports.StepperPulses
import R2C2Firmware.Ports.MotionPlannerQueue

/-!
# No step is lost

The planner books a move as done when it is queued: `position` is the target of
the last request.  The motors follow later, one pulse at a time.  This file
shows that the difference is always exactly what is still queued.

`Conserved` is the invariant.  Besides the balance itself it says that the
block in execution is the oldest pending one, that the direction pins are set
for it, and that each Bresenham accumulator is where the number of events and
of emitted steps puts it.

## Main results

* `steps_conserved` — in every reachable state and for every axis, the planner
  position is the net number of pulses plus the outstanding steps.
-/

set_option linter.unusedSectionVars false

namespace R2C2Firmware.Ports.Stepper

open R2C2Firmware.Verified
open R2C2Firmware.Verified.Number
open R2C2Firmware.Verified.Bresenham
open R2C2Firmware.Ports.Config
open R2C2Firmware.Ports.MotionPlanner

variable {R : Type*}

/-! ## Outstanding steps -/

/-- `n` steps of an axis, signed as the block directs; a wait has none. -/
def signedSteps (a : Axis) (b : Block R) (n : Int) : Int :=
  if b.actionType = .move then
    if b.directionBits &&& dirPin a ≠ 0 then -n else n
  else 0

/-- The signed steps of a list of blocks. -/
def totalSteps (a : Axis) (bs : List (Block R)) : Int :=
  (bs.map fun b => signedSteps a b (b.steps a)).sum

/-- The signed steps still to be emitted: those of every pending block, the
block in execution counting only what it has not emitted yet. -/
def outstanding (a : Axis) (currentBlock : Option Nat) (g : Gpio)
    (queue : List (Block R)) : Int :=
  match currentBlock, queue with
  | some _, b :: bs =>
      signedSteps a b (b.steps a - g.emitted a) + totalSteps a bs
  | _, bs => totalSteps a bs

/-! ## The invariant -/

/-- What the interrupt relies on in a pending block.  It depends on the fixed
part of the block only. -/
structure Traceable (b : Block R) : Prop where
  kind : b.actionType = .move ∨ b.actionType = .waitTemps
  steps : b.actionType = .move →
    ∀ a, 0 ≤ b.steps a ∧ b.steps a ≤ b.stepEventCount
  count : b.actionType = .move →
    0 < b.stepEventCount ∧ b.stepEventCount < 2147483648
  free : b.actionType = .move → b.checkEndstops = false

/-- Where the interrupt is in the move `b`, after `done` events. -/
structure Executing (b : Block R) (g : Gpio) (counter : Axis → Int)
    (done : Int) : Prop where
  progress : 0 ≤ done ∧ done < b.stepEventCount
  accum : ∀ a,
    Accum b.stepEventCount (b.steps a) done (g.emitted a) (counter a)
  direction : ∀ a, g.direction a = decide (b.directionBits &&& dirPin a = 0)

/-- The invariant: the difference between the planner position and the motor
position is what is outstanding. -/
structure Conserved (pl : Planner R) (g : Gpio) (currentBlock : Option Nat)
    (counter : Axis → Int) (done : Int) : Prop where
  wf : pl.WF
  blocks : ∀ b ∈ pl.queue, Traceable b
  range : ∀ a, -1073741824 < pl.position a ∧ pl.position a < 1073741824
  current : ∀ i, currentBlock = some i →
    pl.blockBufferHead ≠ pl.blockBufferTail ∧ i = pl.blockBufferTail ∧
      ((pl.blockBuffer i).actionType = .move →
        Executing (pl.blockBuffer i) g counter done)
  balance : ∀ a, pl.position a =
    g.netPulses a + outstanding a currentBlock g pl.queue

section Steps

variable {pl : Planner R} {g g' : Gpio} {counter : Axis → Int} {done : Int}

/-- The oldest pending block is in the tail slot. -/
theorem queue_eq_cons (hwf : pl.WF)
    (hne : pl.blockBufferHead ≠ pl.blockBufferTail) :
    pl.queue = pl.blockBuffer pl.blockBufferTail :: pl.queue.tail :=
  (List.cons_head?_tail (hwf.queue_head? hne)).symm

theorem Pulses.emitted_none (h : Pulses (fun _ => false) g g') (a : Axis) :
    g'.emitted a = g.emitted a := by
  rw [h.emitted]
  simp

/-- Pins may change as long as no step pin rises and no direction pin moves. -/
theorem Conserved.quiet {cur : Option Nat}
    (h : Conserved pl g cur counter done) (hq : Pulses (fun _ => false) g g') :
    Conserved pl g' cur counter done := by
  have hem := hq.emitted_none
  refine ⟨h.wf, h.blocks, h.range, ?_, ?_⟩
  · intro i hi
    obtain ⟨hne, htail, hexec⟩ := h.current i hi
    refine ⟨hne, htail, fun hmove => ?_⟩
    obtain ⟨hprog, haccum, hdir⟩ := hexec hmove
    refine ⟨hprog, fun a => ?_, fun a => ?_⟩
    · rw [hem]
      exact haccum a
    · rw [hq.direction]
      exact hdir a
  · intro a
    have hout : outstanding a cur g' pl.queue =
        outstanding a cur g pl.queue := by
      unfold outstanding
      split
      · rw [hem]
      · rfl
    rw [hout, hq.netPulses, h.balance a]
    simp

/-- Taking up the oldest pending block keeps what is conserved; nothing of it has been
done yet. -/
theorem Conserved.load (h : Conserved pl g none counter done)
    (hne : pl.blockBufferHead ≠ pl.blockBufferTail) :
    let b := pl.blockBuffer pl.blockBufferTail
    Conserved pl (setDirectionPins b.directionBits g.mark)
      (some pl.blockBufferTail) (fun _ => -(b.stepEventCount / 2)) 0 := by
  intro b
  obtain ⟨htrace, hdir⟩ := setDirectionPins_spec b.directionBits g.mark
  have hem : ∀ a,
      (setDirectionPins b.directionBits g.mark).emitted a = 0 := by
    intro a
    unfold Gpio.emitted
    rw [htrace]
    rfl
  have hnet : ∀ a, (setDirectionPins b.directionBits g.mark).netPulses a =
      g.netPulses a := by
    intro a
    unfold Gpio.netPulses Gpio.rises
    rw [htrace]
    simp [Gpio.mark]
  have hq := queue_eq_cons h.wf hne
  have hb : Traceable b := h.blocks b (by rw [hq]; exact List.mem_cons_self)
  refine ⟨h.wf, h.blocks, h.range, ?_, ?_⟩
  · rintro i ⟨⟩
    refine ⟨hne, rfl, fun hmove => ⟨⟨le_refl 0, (hb.count hmove).1⟩, ?_, hdir⟩⟩
    intro a
    rw [hem]
    exact Accum.start (hb.count hmove).1 _
  · intro a
    have hbal := h.balance a
    rw [hq] at hbal ⊢
    rw [hnet, hbal]
    simp [outstanding, totalSteps, hem, b]

/-- The accumulator of an axis advances by one event, and the axis pulses if its
accumulator passes zero. -/
theorem accum_event {b : Block R} {a : Axis} {k : Int}
    (hs : 0 ≤ b.steps a ∧ b.steps a ≤ b.stepEventCount)
    (hn : b.stepEventCount < 2147483648)
    (hacc : Accum b.stepEventCount (b.steps a) k (g.emitted a) (counter a))
    (hp : Pulses (hit b counter) g g') :
    Accum b.stepEventCount (b.steps a) (k + 1) (g'.emitted a)
      (traced b counter a) := by
  obtain ⟨hs0, hsn⟩ := hs
  have hlower := hacc.lower
  have hupper := hacc.upper
  have hsum : int32 (counter a + b.steps a) = counter a + b.steps a :=
    int32_of_range (by omega) (by omega)
  have hem := hp.emitted a
  unfold traced
  by_cases hhit : hit b counter a = true
  · have hpos : 0 < counter a + b.steps a := by
      rw [← hsum]
      exact of_decide_eq_true hhit
    rw [if_pos hhit] at hem
    rw [if_pos hhit, hem, hsum, int32_of_range (by omega) (by omega)]
    exact hacc.hit hsn hpos
  · have hneg : counter a + b.steps a ≤ 0 := by
      rw [← hsum]
      exact not_lt.1 (fun hlt => hhit (decide_eq_true hlt))
    rw [if_neg hhit, add_zero] at hem
    rw [if_neg hhit, hem, hsum]
    exact hacc.miss hs0 hneg

/-- One event of a move: the accumulators advance, and the axes that pulse are
those whose accumulator passes zero. -/
theorem Executing.event {b : Block R} (hb : Traceable b)
    (hmove : b.actionType = .move) (h : Executing b g counter done)
    (hp : Pulses (hit b counter) g g') (a : Axis) :
    Accum b.stepEventCount (b.steps a) (done + 1) (g'.emitted a)
      (traced b counter a) :=
  accum_event (hb.steps hmove a) (hb.count hmove).2 (h.accum a) hp

/-- The pulses of an event come off what is outstanding. -/
theorem signedSteps_event {b : Block R} (hmove : b.actionType = .move)
    {p : Axis → Bool} (hp : Pulses p g g') (a : Axis)
    (hdir : g.direction a = decide (b.directionBits &&& dirPin a = 0)) :
    g'.netPulses a + signedSteps a b (b.steps a - g'.emitted a) =
      g.netPulses a + signedSteps a b (b.steps a - g.emitted a) := by
  rw [hp.netPulses, hp.emitted, hdir]
  unfold signedSteps
  rw [if_pos hmove, if_pos hmove]
  by_cases hbit : b.directionBits &&& dirPin a = 0
  · rw [if_neg (not_not.2 hbit), if_neg (not_not.2 hbit),
      decide_eq_true hbit]
    cases p a
    · simp
    · simp
      omega
  · rw [if_pos hbit, if_pos hbit, decide_eq_false hbit]
    cases p a
    · simp
    · simp
      omega

/-- The balance after an event of the block in execution. -/
theorem Conserved.balance_event {i : Nat}
    (h : Conserved pl g (some i) counter done)
    (hmove : (pl.blockBuffer i).actionType = .move)
    {p : Axis → Bool} (hp : Pulses p g g') (a : Axis) :
    pl.position a = g'.netPulses a +
      (signedSteps a (pl.blockBuffer i)
        ((pl.blockBuffer i).steps a - g'.emitted a) +
          totalSteps a pl.queue.tail) := by
  obtain ⟨hne, rfl, hexec⟩ := h.current i rfl
  have hev := signedSteps_event hmove hp a ((hexec hmove).direction a)
  have hbal := h.balance a
  rw [queue_eq_cons h.wf hne] at hbal
  dsimp only [outstanding] at hbal
  omega

/-- An event that does not finish the block. -/
theorem Conserved.event {i : Nat} (h : Conserved pl g (some i) counter done)
    (hmove : (pl.blockBuffer i).actionType = .move)
    (hp : Pulses (hit (pl.blockBuffer i) counter) g g')
    (hlt : done + 1 < (pl.blockBuffer i).stepEventCount) :
    Conserved pl g' (some i) (traced (pl.blockBuffer i) counter)
      (done + 1) := by
  obtain ⟨hne, htail, hexec⟩ := h.current i rfl
  have hq := queue_eq_cons h.wf hne
  have hb : Traceable (pl.blockBuffer i) :=
    h.blocks _ (by rw [hq, htail]; exact List.mem_cons_self)
  have hex := hexec hmove
  refine ⟨h.wf, h.blocks, h.range, ?_, ?_⟩
  · rintro j ⟨⟩
    refine ⟨hne, htail, fun _ => ⟨⟨?_, hlt⟩, hex.event hb hmove hp, ?_⟩⟩
    · have := hex.progress.1
      omega
    · intro a
      rw [hp.direction]
      exact hex.direction a
  · intro a
    rw [h.balance_event hmove hp a]
    rw [hq, ← htail]
    rfl

/-- A block leaves the queue when nothing of it is outstanding. -/
theorem Conserved.pop {i : Nat} (h : Conserved pl g (some i) counter done)
    (hbal : ∀ a, pl.position a = g'.netPulses a + totalSteps a pl.queue.tail)
    (counter' : Axis → Int) (done' : Int) :
    Conserved (planDiscardCurrentBlock pl) g' none counter' done' := by
  have hq := queue_discard h.wf
  have hpos : (planDiscardCurrentBlock pl).position = pl.position := by
    rw [planDiscardCurrentBlock_eq]
  refine ⟨h.wf.discard, ?_, ?_, fun j hj => absurd hj (by simp), ?_⟩
  · intro b hb
    rw [hq] at hb
    exact h.blocks b (List.mem_of_mem_tail hb)
  · rw [hpos]
    exact h.range
  · intro a
    rw [hpos, hq, hbal a]
    rfl

/-- The event that finishes the block: all its steps have been emitted. -/
theorem Conserved.finish {i : Nat} (h : Conserved pl g (some i) counter done)
    (hmove : (pl.blockBuffer i).actionType = .move)
    (hp : Pulses (hit (pl.blockBuffer i) counter) g g')
    (hge : ¬done + 1 < (pl.blockBuffer i).stepEventCount)
    (counter' : Axis → Int) (done' : Int) :
    Conserved (planDiscardCurrentBlock pl) g' none counter' done' := by
  obtain ⟨hne, htail, hexec⟩ := h.current i rfl
  have hb : Traceable (pl.blockBuffer i) := h.blocks _ (by
    rw [queue_eq_cons h.wf hne, htail]
    exact List.mem_cons_self)
  have hex := hexec hmove
  have hlast : done + 1 = (pl.blockBuffer i).stepEventCount := by
    have := hex.progress.2
    omega
  refine h.pop (fun a => ?_) counter' done'
  have hacc := hex.event hb hmove hp a
  rw [hlast] at hacc
  rw [h.balance_event hmove hp a, hacc.finish, sub_self]
  simp [signedSteps]

/-- A wait that is over leaves without a trace. -/
theorem Conserved.waitOver {i : Nat}
    (h : Conserved pl g (some i) counter done)
    (hwait : (pl.blockBuffer i).actionType ≠ .move) :
    Conserved (planDiscardCurrentBlock pl) g none counter done := by
  obtain ⟨hne, htail, -⟩ := h.current i rfl
  refine h.pop (fun a => ?_) counter done
  have hbal := h.balance a
  rw [queue_eq_cons h.wf hne, ← htail] at hbal
  dsimp only [outstanding] at hbal
  rw [hbal, signedSteps, if_neg hwait]
  simp

end Steps

/-! ## The interrupt keeps the invariant -/

/-- The invariant of a machine. -/
def Machine.Conserved (m : Machine R) : Prop :=
  Stepper.Conserved m.planner m.gpio m.stepper.currentBlock m.stepper.counter
    m.stepper.stepEventsCompleted

theorem popBlock_conserved {m : Machine R} (h : m.Conserved) :
    (popBlock m).Conserved := by
  unfold Machine.Conserved at h
  unfold popBlock
  split
  · next i hcur => exact h
  · next hcur =>
      rw [hcur] at h
      unfold planGetCurrentBlock
      split
      · next i hget =>
          split at hget
          · exact absurd hget (by simp)
          · next hne =>
              obtain rfl := Option.some.inj hget
              exact h.load hne
      · have hq := h.quiet (clearAllStepPins_pulses m.gpio)
        rw [← hcur] at hq
        exact hq

theorem moveInterrupt_conserved (inp : StInputs) {m : Machine R} {i : Nat}
    (h : m.Conserved) (hcur : m.stepper.currentBlock = some i)
    (hmove : (m.planner.blockBuffer i).actionType = .move) :
    (moveInterrupt inp (m.planner.blockBuffer i) m).Conserved := by
  unfold Machine.Conserved at h
  rw [hcur] at h
  obtain ⟨hne, htail, hexec⟩ := h.current i rfl
  have hb : Traceable (m.planner.blockBuffer i) := h.blocks _ (by
    rw [queue_eq_cons h.wf hne, htail]
    exact List.mem_cons_self)
  obtain ⟨hn0, hn⟩ := hb.count hmove
  obtain ⟨hd0, hdn⟩ := (hexec hmove).progress
  obtain ⟨hpl, hp, htr⟩ := stepEvent_spec inp m (hb.free hmove)
  unfold moveInterrupt
  dsimp only
  generalize stepEvent inp (m.planner.blockBuffer i) m = m' at hpl hp htr ⊢
  simp only [StepperState.tracing, Prod.mk.injEq, hcur] at htr
  obtain ⟨hcur', hcounter, hdone, -⟩ := htr
  rw [uint32_of_range (by omega) (by omega)] at hdone
  rw [uint32_of_range hn0.le (by omega), hdone]
  split
  · next hlt =>
      obtain ⟨hpl', hg', htr'⟩ :=
        trapezoidTick_frame (m.planner.blockBuffer i) m'
      simp only [StepperState.tracing, Prod.mk.injEq] at htr'
      obtain ⟨hcur'', hcounter', hdone', -⟩ := htr'
      unfold Machine.Conserved
      rw [hpl', hg', hcur'', hcounter', hdone', hpl, hcur', hcounter, hdone]
      exact h.event hmove hp hlt
  · next hge =>
      unfold Machine.Conserved discardCurrent
      dsimp only
      rw [hpl]
      exact h.finish hmove hp hge _ _

theorem serveBlock_conserved (inp : StInputs) {m : Machine R}
    (h : m.Conserved) : (serveBlock inp m).Conserved := by
  unfold serveBlock
  split
  · next i hcur =>
      dsimp only
      split
      · next hmove => exact moveInterrupt_conserved inp h hcur hmove
      · next hwait =>
          unfold waitInterrupt
          dsimp only
          split
          · have hw : (m.planner.blockBuffer i).actionType ≠ .move := by
              rw [hwait]
              decide
            unfold Machine.Conserved at h
            rw [hcur] at h
            exact h.waitOver hw
          · exact h
      · exact h
      · exact h
  · exact h

theorem settlePins_conserved {m : Machine R} (h : m.Conserved) :
    (settlePins m).Conserved := by
  unfold Machine.Conserved at h
  unfold settlePins
  split
  · exact h.quiet (clearAllStepPins_pulses m.gpio)
  · exact h.quiet (clearStepPinsByState_pulses m.stepper m.gpio)

theorem stInterrupt_conserved (inp : StInputs) {m : Machine R}
    (h : m.Conserved) : (stInterrupt inp m).Conserved := by
  unfold stInterrupt
  split
  · exact h
  · exact settlePins_conserved (serveBlock_conserved inp
      (popBlock_conserved (m := { m with
        stepper := { m.stepper with busy := true } }) h))

/-! ## Requests keep the invariant -/

section Requests

variable [Field R] [LinearOrder R] [HasSqrt R] [FloorRing R]
variable {pl pl' : Planner R} {g : Gpio} {counter : Axis → Int} {done : Int}

theorem Traceable.of_fixed {b c : Block R} (h : Traceable b)
    (hf : c.fixed = b.fixed) : Traceable c := by
  have hb : Traceable b.fixed := ⟨h.kind, h.steps, h.count, h.free⟩
  rw [← hf] at hb
  exact ⟨hb.kind, hb.steps, hb.count, hb.free⟩

theorem Executing.of_fixed {b c : Block R} (h : Executing b g counter done)
    (hf : c.fixed = b.fixed) : Executing c g counter done := by
  have hb : Executing b.fixed g counter done :=
    ⟨h.progress, h.accum, h.direction⟩
  rw [← hf] at hb
  exact ⟨hb.progress, hb.accum, hb.direction⟩

theorem totalSteps_of_fixed (a : Axis) {bs cs : List (Block R)}
    (hf : cs.map Block.fixed = bs.map Block.fixed) :
    totalSteps a cs = totalSteps a bs := by
  have hfix : ∀ ds : List (Block R),
      totalSteps a ds = totalSteps a (ds.map Block.fixed) := by
    intro ds
    unfold totalSteps
    rw [List.map_map]
    rfl
  rw [hfix cs, hf, ← hfix]

theorem outstanding_of_fixed (a : Axis) (cur : Option Nat)
    {bs cs : List (Block R)} (hf : cs.map Block.fixed = bs.map Block.fixed) :
    outstanding a cur g cs = outstanding a cur g bs := by
  cases cur with
  | none => exact totalSteps_of_fixed a hf
  | some i =>
      cases bs with
      | nil =>
          have hnil : cs = [] := List.map_eq_nil_iff.1 hf
          rw [hnil]
      | cons b bs =>
          cases cs with
          | nil => exact absurd hf (by simp)
          | cons c cs =>
              obtain ⟨hhead, htail⟩ := List.cons.inj hf
              have hsame : ∀ n, signedSteps a c n = signedSteps a b n := by
                intro n
                change signedSteps a c.fixed n = signedSteps a b.fixed n
                rw [hhead]
              have hsteps : c.steps = b.steps := by
                change c.fixed.steps = b.fixed.steps
                rw [hhead]
              simp only [outstanding, hsame, hsteps,
                totalSteps_of_fixed a htail]

theorem outstanding_append (a : Axis) {cur : Option Nat} (bs cs : List (Block R))
    (h : cur.isSome → bs ≠ []) :
    outstanding a cur g (bs ++ cs) =
      outstanding a cur g bs + totalSteps a cs := by
  have happend : ∀ l : List (Block R),
      totalSteps a (l ++ cs) = totalSteps a l + totalSteps a cs := by
    intro l
    simp [totalSteps]
  cases cur with
  | none => exact happend bs
  | some i =>
      cases bs with
      | nil => exact absurd rfl (h rfl)
      | cons b bs =>
          simp only [List.cons_append, outstanding, happend]
          omega

/-- A request keeps the invariant if it appends to the queue what it adds to
the position, and otherwise replans. -/
theorem Conserved.extend {cur : Option Nat} {bs : List (Block R)}
    (h : Conserved pl g cur counter done) (hwf : pl'.WF)
    (htail : pl'.blockBufferTail = pl.blockBufferTail)
    (hq : pl'.queue.map Block.fixed = (pl.queue ++ bs).map Block.fixed)
    (hbs : ∀ b ∈ bs, Traceable b)
    (hrange : ∀ a,
      -1073741824 < pl'.position a ∧ pl'.position a < 1073741824)
    (hpos : ∀ a, pl'.position a = pl.position a + totalSteps a bs) :
    Conserved pl' g cur counter done := by
  refine ⟨hwf, ?_, hrange, ?_, ?_⟩
  · intro c hc
    have hmem : c.fixed ∈ (pl.queue ++ bs).map Block.fixed :=
      hq ▸ List.mem_map_of_mem hc
    obtain ⟨b, hb, hbc⟩ := List.mem_map.1 hmem
    rcases List.mem_append.1 hb with hb | hb
    · exact (h.blocks b hb).of_fixed hbc.symm
    · exact (hbs b hb).of_fixed hbc.symm
  · intro i hi
    obtain ⟨hne, hitail, hexec⟩ := h.current i hi
    have hcons := queue_eq_cons h.wf hne
    have hne' : pl'.blockBufferHead ≠ pl'.blockBufferTail := by
      intro heq
      rw [hwf.queue_eq_nil.2 heq, hcons] at hq
      exact absurd hq (by simp)
    have hfix : (pl'.blockBuffer i).fixed = (pl.blockBuffer i).fixed := by
      rw [queue_eq_cons hwf hne', hcons, htail, ← hitail] at hq
      exact (List.cons.inj hq).1
    refine ⟨hne', hitail.trans htail.symm, fun hmove => ?_⟩
    have hold : (pl.blockBuffer i).actionType = .move := by
      change (pl.blockBuffer i).fixed.actionType = .move
      rw [← hfix]
      exact hmove
    exact (hexec hold).of_fixed hfix
  · intro a
    rw [outstanding_of_fixed a cur hq, outstanding_append, hpos, h.balance a]
    · omega
    · intro hcur
      obtain ⟨i, hi⟩ := Option.isSome_iff_exists.1 hcur
      rw [queue_eq_cons h.wf (h.current i hi).1]
      simp

/-- The direction bit of an axis says whether it travels backwards. -/
theorem moveDirectionBits_eq_zero (target position : Axis → Int) (a : Axis) :
    moveDirectionBits target position &&& dirPin a = 0 ↔
      ¬target a < position a := by
  simp only [moveDirectionBits, Axis.all, List.foldl_cons, List.foldl_nil]
  by_cases hx : target .x < position .x <;>
    by_cases hy : target .y < position .y <;>
    by_cases hz : target .z < position .z <;>
    by_cases he : target .e < position .e <;>
    simp only [hx, hy, hz, he, if_true, if_false] <;>
    cases a <;> simp only [hx, hy, hz, he] <;> decide

/-- A coordinate whose step position is well inside the integers. -/
def InRange (cfg : Configuration R) (t : Target R) : Prop :=
  ∀ a, |lround (t.coord a * cfg.stepsPerMm a)| < 1073741824

section Line

variable {cfg : Configuration R} {pAction : ActionRequest R}

theorem InRange.targetSteps_range (h : InRange cfg pAction.target) (a : Axis) :
    -1073741824 < targetSteps cfg pAction.target a ∧
      targetSteps cfg pAction.target a < 1073741824 := by
  have ha := abs_lt.1 (h a)
  rw [targetSteps, int32_of_range (by omega) (by omega)]
  exact ha

theorem moveSteps_eq {target position : Axis → Int} {a : Axis}
    (ht : -1073741824 < target a ∧ target a < 1073741824)
    (hp : -1073741824 < position a ∧ position a < 1073741824) :
    moveSteps target position a = |target a - position a| := by
  have habs : |target a - position a| < 2147483648 := abs_lt.2 (by omega)
  rw [moveSteps, int32_of_range (by omega) (by omega),
    uint32_of_range (abs_nonneg _) (by omega)]

/-- The largest step count, as long as the counts are no larger than an
`int32_t`. -/
theorem moveEventCount_eq {steps : Axis → Int}
    (h : ∀ a, 0 ≤ steps a ∧ steps a < 2147483648) :
    moveEventCount steps =
      max (max (steps .x) (max (steps .y) (steps .z))) (steps .e) := by
  have hx := h .x
  have hy := h .y
  have hz := h .z
  have he := h .e
  have hxyz : int32 (max (steps .x) (max (steps .y) (steps .z))) =
      max (steps .x) (max (steps .y) (steps .z)) :=
    int32_of_range (by omega) (by omega)
  unfold moveEventCount
  dsimp only
  rw [hxyz, uint32_of_range (by omega) (by omega),
    int32_of_range (by omega) (by omega)]

theorem newBlock_traceable (hmove : pAction.actionType = .move)
    (ht : InRange cfg pAction.target)
    (hp : ∀ a, -1073741824 < pl.position a ∧ pl.position a < 1073741824)
    (hz : zeroLength cfg pAction pl = false) :
    Traceable (newBlock cfg pAction pl) := by
  obtain ⟨hkind, -, hsteps, hcount, hends⟩ :=
    @newBlock_motion R _ _ _ _ cfg pAction pl
  have hrange : ∀ a,
      0 ≤ moveSteps (targetSteps cfg pAction.target) pl.position a ∧
        moveSteps (targetSteps cfg pAction.target) pl.position a <
          2147483648 := by
    intro a
    have hta := ht.targetSteps_range a
    have hpa := hp a
    rw [moveSteps_eq hta hpa]
    exact ⟨abs_nonneg _, abs_lt.2 (by omega)⟩
  have hmax := moveEventCount_eq hrange
  have hx := hrange .x
  have hy := hrange .y
  have hz' := hrange .z
  have he := hrange .e
  refine ⟨.inl hkind, fun _ a => ?_, fun _ => ?_, fun _ => ?_⟩
  · rw [hsteps, hcount, hmax]
    cases a <;> omega
  · rw [hcount]
    rw [zeroLength, beq_eq_false_iff_ne] at hz
    omega
  · rw [hends, hmove]
    rfl

/-- The signed steps of a new block are the change of position. -/
theorem newBlock_signedSteps (ht : InRange cfg pAction.target)
    (hp : ∀ a, -1073741824 < pl.position a ∧ pl.position a < 1073741824)
    (a : Axis) :
    signedSteps a (newBlock cfg pAction pl) ((newBlock cfg pAction pl).steps a) =
      targetSteps cfg pAction.target a - pl.position a := by
  obtain ⟨hkind, hbits, hsteps, -, -⟩ :=
    @newBlock_motion R _ _ _ _ cfg pAction pl
  have hdir := moveDirectionBits_eq_zero (targetSteps cfg pAction.target)
    pl.position a
  rw [signedSteps, if_pos hkind, hbits, hsteps,
    moveSteps_eq (ht.targetSteps_range a) (hp a)]
  by_cases hlt : targetSteps cfg pAction.target a < pl.position a
  · rw [if_pos (mt hdir.1 (not_not.2 hlt)), abs_of_neg (by omega)]
    omega
  · rw [if_neg (not_not.2 (hdir.2 hlt)), abs_of_nonneg (by omega)]

/-- Queueing a move keeps the invariant. -/
theorem Conserved.line {cur : Option Nat}
    (h : Conserved pl g cur counter done) (hroom : planQueueFull pl = false)
    (hmove : pAction.actionType = .move) (ht : InRange cfg pAction.target) :
    Conserved (planBufferLine cfg pAction pl).1 g cur counter done := by
  have hwf := h.wf.planBufferLine cfg pAction
  have hq := @queue_planBufferLine_fixed R _ _ _ _ cfg pAction pl h.wf
    hroom
  by_cases hz : zeroLength cfg pAction pl = true
  · rw [if_pos hz] at hq
    rw [planBufferLine_fst_of_zeroLength hz] at hwf hq ⊢
    exact h.extend hwf rfl hq (by simp) h.range (by simp [totalSteps])
  · rw [if_neg hz] at hq
    rw [Bool.not_eq_true] at hz
    rw [planBufferLine_fst hz, finishPlan_eq] at hwf hq ⊢
    refine h.extend hwf rfl hq ?_ ?_ ?_
    · intro b hb
      rw [List.mem_singleton.1 hb]
      exact newBlock_traceable hmove ht h.range hz
    · exact fun a => ht.targetSteps_range a
    · intro a
      have hsigned := newBlock_signedSteps ht h.range a
      simp only [totalSteps, List.map_cons, List.map_nil, List.sum_cons,
        List.sum_nil, add_zero]
      rw [hsigned]
      change targetSteps cfg pAction.target a = _
      omega

/-- Queueing a wait keeps the invariant. -/
theorem Conserved.wait {cur : Option Nat}
    (h : Conserved pl g cur counter done) (hroom : planQueueFull pl = false)
    (hwait : pAction.actionType = .waitTemps) :
    Conserved (planBufferWait cfg pAction pl).1 g cur counter done := by
  have hwf := h.wf.planBufferWait cfg pAction
  have hq := @queue_planBufferWait_fixed R _ _ _ _ cfg pAction pl h.wf
    hroom
  have hkind : ∀ b : Block R,
      (waitBlock pAction.actionType b).actionType = .waitTemps :=
    fun _ => hwait
  have hnot : ActionType.waitTemps ≠ .move := by decide
  rw [planBufferWait, finishPlan_eq] at hwf hq ⊢
  refine h.extend hwf rfl hq ?_ h.range ?_
  · intro b hb
    rw [List.mem_singleton.1 hb]
    refine ⟨.inr (hkind _), ?_, ?_, ?_⟩ <;>
      (intro hmove; rw [hkind] at hmove; exact absurd hmove hnot)
  · intro a
    simp only [totalSteps, List.map_cons, List.map_nil, List.sum_cons,
      List.sum_nil, signedSteps, hkind, if_neg hnot, add_zero]
    rfl

end Line

/-! ## Runs -/

/-- The machines reached from an idle stepper and an initialised planner by
requests for moves and waits, interrupts, ticks of the acceleration timer and
LED changes, in any order. -/
inductive StepRun : Machine R → Prop
  | init (m : Machine R) (pl : Planner R) : m.planner = planInit pl →
      m.stepper.currentBlock = none → m.stepper.busy = false →
      m.gpio.trace = [] → StepRun m
  | move {m : Machine R} (pAction : ActionRequest R) : StepRun m →
      planQueueFull m.planner = false → pAction.actionType = .move →
      InRange m.config pAction.target → StepRun (bufferAction pAction m)
  | wait {m : Machine R} (pAction : ActionRequest R) : StepRun m →
      planQueueFull m.planner = false → pAction.actionType = .waitTemps →
      StepRun (bufferAction pAction m)
  | interrupt {m : Machine R} (inp : StInputs) : StepRun m →
      StepRun (stInterrupt inp m)
  | leds {m : Machine R} (ledOn : BitVec 8) (ledCount : Axis → Int)
      (ledsEnabled accelFlag : Bool) : StepRun m →
      StepRun { m with
        stepper := { m.stepper with ledOn, ledCount, ledsEnabled, accelFlag } }

theorem bufferAction_conserved {m : Machine R} {pAction : ActionRequest R}
    (h : Conserved (planBufferAction m.config pAction m.planner).1 m.gpio
      m.stepper.currentBlock m.stepper.counter m.stepper.stepEventsCompleted) :
    (bufferAction pAction m).Conserved := by
  unfold bufferAction
  dsimp only
  split <;> exact h

/-- The invariant holds along every run. -/
theorem StepRun.conserved {m : Machine R} (h : StepRun m) : m.Conserved := by
  induction h with
  | init m pl hpl hcur hbusy htrace =>
      unfold Machine.Conserved
      rw [hpl, hcur]
      refine ⟨planInit_wf pl, ?_, ?_, fun i hi => absurd hi (by simp), ?_⟩
      · rw [planInit_queue]
        simp
      · intro a
        change -1073741824 < (0 : Int) ∧ (0 : Int) < 1073741824
        decide
      · intro a
        rw [planInit_queue, Gpio.netPulses, Gpio.rises, Gpio.rises, htrace]
        rfl
  | move pAction _ hroom hmove ht ih =>
      apply bufferAction_conserved
      rw [planBufferAction, hmove]
      exact ih.line hroom hmove ht
  | wait pAction _ hroom hwait ih =>
      apply bufferAction_conserved
      rw [planBufferAction, hwait]
      exact ih.wait hroom hwait
  | interrupt inp _ ih => exact stInterrupt_conserved inp ih
  | leds _ _ _ _ _ ih => exact ih

/-- In every reachable state and for every axis the planner position is the net
number of pulses plus the outstanding steps, so the two agree when nothing is
queued. -/
theorem steps_conserved {m : Machine R} (h : StepRun m) (a : Axis) :
    m.planner.position a =
        m.gpio.rises a true - m.gpio.rises a false +
          outstanding a m.stepper.currentBlock m.gpio m.planner.queue ∧
      (m.planner.queue = [] → m.planner.position a =
        m.gpio.rises a true - m.gpio.rises a false) := by
  have hbal := h.conserved.balance a
  refine ⟨hbal, fun hempty => ?_⟩
  have hnone : outstanding a m.stepper.currentBlock m.gpio m.planner.queue =
      0 := by
    rw [hempty]
    unfold outstanding
    split
    · next heq => exact absurd heq (by simp)
    · next heq => rfl
  rw [hbal, hnone, add_zero]
  rfl

end Requests

/-- Two steps along X, on exact rationals. -/
def twoSteps : ActionRequest ℚ :=
  ⟨.move, ⟨1 / 40, 0, 0, 0, 600, false⟩⟩

/-- After one of two steps: one pulse forwards and one step outstanding. -/
theorem steps_conserved_twoSteps :
    let m := stInterrupt ⟨false, fun _ _ => false⟩
      (bufferAction twoSteps (Machine.start Configuration.default))
    m.planner.position .x = 2 ∧ m.gpio.rises .x true = 1 ∧
      m.planner.position .x =
        m.gpio.rises .x true - m.gpio.rises .x false +
          outstanding .x m.stepper.currentBlock m.gpio m.planner.queue := by
  refine ⟨by decide +kernel, by decide +kernel, (steps_conserved ?_ .x).1⟩
  refine .interrupt _ (.move twoSteps (.init _ .zero rfl rfl rfl rfl) rfl rfl ?_)
  intro a
  cases a <;> decide +kernel

end R2C2Firmware.Ports.Stepper
