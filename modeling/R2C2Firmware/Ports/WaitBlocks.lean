import R2C2Firmware.Ports.MotionPlannerFeasible
import R2C2Firmware.Ports.SpeedLimit
import R2C2Firmware.Ports.Trapezoid

/-!
# Waits between moves

A wait for the temperatures is a point of rest: the move before it should end at
rest, and the move behind it start from rest.  `plan_buffer_wait` does not tell the
planner so.  Its block is entered at 600 mm/min, keeps the junction limit and the
flags its slot held before, and leaves the speed of the last move on record for the
next junction.

The wait does no harm behind another wait or an empty queue.  Behind a single pending
move it does none if that move is long enough to reach 600 mm/min and the slot is
clean; behind the wait, a move starts from rest if no speed is on record or the path
turns back.  That rates stay below the nominal rate takes a nominal speed that is
positive: the duration of a move has to be a positive `long`.

## Main results

* `recalculate_append` — a block that starts from rest cuts the queue in two.
* `waits_at_rest` — runs in which every request is of these kinds.
* `wait_entered_fast` — a move of 0.1 mm before a wait.
-/

set_option linter.unusedSectionVars false

namespace R2C2Firmware.Ports.WaitBlocks

open R2C2Firmware.Verified.Number
open R2C2Firmware.Verified
open R2C2Firmware.Verified.Lookahead
open R2C2Firmware.Ports.Config
open R2C2Firmware.Ports.MotionPlanner

variable {cfg : Configuration ℝ} {b n m w : Block ℝ} {bs ms ws : List (Block ℝ)}

/-! ## Blocks with speeds that are not negative -/

/-- Neither the entry speed nor its limit is negative. -/
structure Forward (b : Block ℝ) : Prop where
  entry : 0 ≤ b.entrySpeed
  max : 0 ≤ b.maxEntrySpeed

/-- The backward pass gives a block its junction limit or a square root, so its entry
speed stays above zero. -/
theorem reverseJunction_forward (b n : Block ℝ) (h : Forward b) :
    Forward (reverseJunction cfg b n) := by
  unfold reverseJunction
  split
  · refine ⟨?_, h.max⟩
    dsimp only
    split
    · exact le_min h.max (Real.sqrt_nonneg _)
    · exact h.max
  · exact h

/-- The forward pass lowers an entry speed only to a square root, which is not negative.
-/
theorem forwardJunction_forward (p b : Block ℝ) (h : Forward b) :
    Forward (forwardJunction cfg p b) := by
  unfold forwardJunction
  split
  · dsimp only
    split
    · exact ⟨le_min h.entry (Real.sqrt_nonneg _), h.max⟩
    · exact h
  · exact h

/-- A step that keeps a property keeps it along a list. -/
theorem forall_of_forall₂ {P : Block ℝ → Prop} {l l' : List (Block ℝ)}
    (h : List.Forall₂ (fun a c => P a → P c) l l') (hl : ∀ a ∈ l, P a) :
    ∀ c ∈ l', P c := by
  induction h with
  | nil => exact hl
  | cons hac _ ih =>
      obtain ⟨ha, hl⟩ := List.forall_mem_cons.1 hl
      exact List.forall_mem_cons.2 ⟨hac ha, ih hl⟩

/-- A whole backward pass leaves no negative speed in the queue. -/
theorem reverseQueue_forward (h : ∀ b ∈ bs, Forward b) :
    ∀ b ∈ reverseQueue cfg bs, Forward b := by
  cases bs with
  | nil => exact h
  | cons b bs =>
      obtain ⟨hb, hbs⟩ := List.forall_mem_cons.1 h
      exact List.forall_mem_cons.2 ⟨hb, forall_of_forall₂
        (Ring.scanRight_forall₂ (fun _ => id) reverseJunction_forward bs) hbs⟩

/-- A whole forward pass leaves no negative speed in the queue. -/
theorem forwardQueue_forward (h : ∀ b ∈ bs, Forward b) :
    ∀ b ∈ forwardQueue cfg bs, Forward b := by
  cases bs with
  | nil => exact h
  | cons b bs =>
      obtain ⟨hb, hbs⟩ := List.forall_mem_cons.1 h
      exact List.forall_mem_cons.2 ⟨hb, forall_of_forall₂
        (Ring.scanLeft_forall₂ forwardJunction_forward b bs) hbs⟩

/-- Both passes and the trapezoids together leave no negative speed in the queue. -/
theorem recalculateQueue_forward (h : ∀ b ∈ bs, Forward b) :
    ∀ b ∈ recalculateQueue cfg bs, Forward b := by
  have hkeep : (recalculateQueue cfg bs).map (fun b => (b.entrySpeed, b.maxEntrySpeed)) =
      (forwardQueue cfg (reverseQueue cfg bs)).map
        fun b => (b.entrySpeed, b.maxEntrySpeed) :=
    Ring.pairUp_map _
      (fun b n => Prod.ext (trapezoidJunction_entrySpeed b n)
        (max_of_fixed (trapezoidJunction_fixed b n)))
      (fun b => Prod.ext (retrapezoid_entrySpeed b _)
        (max_of_fixed (retrapezoid_fixed b _))) _
  intro c hc
  have hmem := List.mem_map_of_mem (f := fun b : Block ℝ =>
    (b.entrySpeed, b.maxEntrySpeed)) hc
  rw [hkeep] at hmem
  obtain ⟨a, ha, hac⟩ := List.mem_map.1 hmem
  have hforward := forwardQueue_forward (reverseQueue_forward h) a ha
  obtain ⟨hentry, hmax⟩ := Prod.mk.inj hac
  exact ⟨hentry ▸ hforward.entry, hmax ▸ hforward.max⟩

/-! ## A block that starts from rest -/

/-- The backward pass does not touch a block that is entered at its junction limit. -/
theorem reverseJunction_atLimit (h : b.entrySpeed = b.maxEntrySpeed) (n : Block ℝ) :
    reverseJunction cfg b n = b := by
  unfold reverseJunction
  exact if_neg (not_not.2 h)

/-- The forward pass does not touch a block that is entered at rest. -/
theorem forwardJunction_atRest {p : Block ℝ} (hp : 0 ≤ p.entrySpeed)
    (h : b.entrySpeed = 0) : forwardJunction cfg p b = b := by
  unfold forwardJunction
  rw [if_neg]
  simp only [Bool.and_eq_true, decide_eq_true_eq, h, not_and, not_lt]
  exact fun _ => hp

/-- The passes do not cross a block that starts from rest. -/
theorem recalculate_append {l : List (Block ℝ)} (hne : l ≠ [])
    (hforward : ∀ b ∈ l ++ m :: ms, Forward b) (hmax : m.maxEntrySpeed = 0)
    (hentry : m.entrySpeed = 0) :
    ∃ l', recalculateQueue cfg (l ++ m :: ms) = l' ++ recalculateQueue cfg (m :: ms) := by
  obtain ⟨b, l, rfl⟩ := List.exists_cons_of_ne_nil hne
  have hscan : Ring.scanRight (reverseJunction cfg) (m :: ms) =
      reverseQueue cfg (m :: ms) := by
    cases ms with
    | nil => rfl
    | cons n ms =>
        obtain ⟨n', ms', hn, hfull⟩ :=
          Ring.scanRight_cons_cons (reverseJunction cfg) m n ms
        rw [hfull, reverseJunction_atLimit (hentry.trans hmax.symm), reverseQueue, hn]
  obtain ⟨l₁, hrev⟩ := Ring.scanRight_append (reverseJunction cfg) l m ms
  have hreverse : reverseQueue cfg (b :: l ++ m :: ms) =
      (b :: l₁) ++ reverseQueue cfg (m :: ms) := by
    rw [List.cons_append, reverseQueue, hrev, hscan]
    rfl
  -- the block in front of it has no negative speed
  have hbefore : ∀ c ∈ b :: Ring.scanLeft (forwardJunction cfg) b l₁, Forward c := by
    have hfront : ∀ c ∈ b :: l₁, Forward c := fun c hc =>
      reverseQueue_forward hforward c (hreverse ▸ List.mem_append_left _ hc)
    exact forwardQueue_forward hfront
  obtain ⟨l₂, hfwd⟩ : ∃ l₂, forwardQueue cfg (reverseQueue cfg (b :: l ++ m :: ms)) =
      l₂ ++ forwardQueue cfg (reverseQueue cfg (m :: ms)) := by
    refine ⟨b :: Ring.scanLeft (forwardJunction cfg) b l₁, ?_⟩
    have hlast := hbefore _ (List.getLast_mem (l := b :: Ring.scanLeft
      (forwardJunction cfg) b l₁) (by simp))
    rw [hreverse, List.cons_append, forwardQueue, Ring.scanLeft_append, reverseQueue,
      Ring.scanLeft, forwardJunction_atRest hlast.entry hentry, forwardQueue]
    rfl
  have hsome : ∃ m' ms', forwardQueue cfg (reverseQueue cfg (m :: ms)) = m' :: ms' :=
    ⟨_, _, rfl⟩
  obtain ⟨m', ms', hm'⟩ := hsome
  obtain ⟨l₃, hpairs⟩ := Ring.pairUp_append trapezoidJunction
    (fun b : Block ℝ => retrapezoid b minimumPlannerSpeed) l₂ m' ms'
  refine ⟨l₃, ?_⟩
  unfold recalculateQueue trapezoidQueue
  rw [hfwd, hm', hpairs]

/-! ## Rates -/

/-- Replanning leaves no block with its flag raised. -/
theorem recalculateQueue_flags (bs : List (Block ℝ)) :
    ∀ b ∈ recalculateQueue cfg bs, b.recalculateFlag = false := by
  have hjunction : ∀ b n : Block ℝ, (trapezoidJunction b n).recalculateFlag = false := by
    intro b n
    unfold trapezoidJunction
    split
    · rfl
    · next hquiet =>
      rw [Bool.not_eq_true, Bool.or_eq_false_iff] at hquiet
      exact hquiet.1
  have hpairs : ∀ l : List (Block ℝ), ∀ b ∈ trapezoidQueue l,
      b.recalculateFlag = false := by
    intro l
    induction l with
    | nil => exact fun b hb => absurd hb (by simp [trapezoidQueue, Ring.pairUp])
    | cons b l ih =>
        cases l with
        | nil =>
            intro c hc
            rw [List.mem_singleton.1 hc]
            rfl
        | cons n l => exact List.forall_mem_cons.2 ⟨hjunction b n, ih⟩
  exact hpairs _

/-- The nominal rate is an `unsigned long`. -/
def RateInRange (b : Block ℝ) : Prop := 0 ≤ b.nominalRate ∧ b.nominalRate < 4294967296

/-- The bound on the nominal rate reads only fields that replanning keeps. -/
theorem RateInRange.of_fixed {c : Block ℝ} (h : RateInRange b) (hf : c.fixed = b.fixed) :
    RateInRange c := by
  have hb : RateInRange b.fixed := h
  rw [← hf] at hb
  exact hb

/-- Replanning does not turn a move into a wait or a wait into a move. -/
theorem actionType_of_fixed {c : Block ℝ} (hf : c.fixed = b.fixed) :
    c.actionType = b.actionType := by
  change c.fixed.actionType = b.fixed.actionType
  rw [hf]

/-- The rates of a trapezoid stay below the nominal rate, and the final rate is zero
where the block ends at rest. -/
theorem Fits.rates {exitSpeed : ℝ} (h : MotionPlanner.Fits b exitSpeed)
    (hnominal : 0 < b.nominalSpeed) (hrate : RateInRange b)
    (hentry : 0 ≤ b.entrySpeed ∧ b.entrySpeed ≤ b.nominalSpeed)
    (hexit : 0 ≤ exitSpeed ∧ exitSpeed ≤ b.nominalSpeed) :
    b.initialRate ≤ b.nominalRate ∧ b.finalRate ≤ b.nominalRate ∧
      (exitSpeed = 0 → b.finalRate = 0) := by
  have hfactor : ∀ {v : ℝ}, 0 ≤ v ∧ v ≤ b.nominalSpeed →
      uint32 ⌈(b.nominalRate : ℝ) * (v / b.nominalSpeed)⌉ =
        ⌈(b.nominalRate : ℝ) * (v / b.nominalSpeed)⌉ ∧
      ⌈(b.nominalRate : ℝ) * (v / b.nominalSpeed)⌉ ≤ b.nominalRate := by
    intro v hv
    obtain ⟨hlo, hhi⟩ := Trapezoid.ceil_factor hrate.1
      (div_nonneg hv.1 hnominal.le) ((div_le_one hnominal).2 hv.2)
    have hrange := hrate.2
    exact ⟨uint32_of_range hlo (by omega), hhi⟩
  have hrates : ∀ x y : ℝ,
      (calculateTrapezoidForBlock b x y).initialRate =
          uint32 ⌈(b.nominalRate : ℝ) * x⌉ ∧
        (calculateTrapezoidForBlock b x y).finalRate =
          uint32 ⌈(b.nominalRate : ℝ) * y⌉ := by
    intro x y
    unfold calculateTrapezoidForBlock
    dsimp only
    split <;> exact ⟨rfl, rfl⟩
  obtain ⟨hinitial, hfinal⟩ := hrates (b.entrySpeed / b.nominalSpeed)
    (exitSpeed / b.nominalSpeed)
  have hinitial' : b.initialRate = _ := (congrArg (·.1) h).trans hinitial
  have hfinal' : b.finalRate = _ := (congrArg (·.2.1) h).trans hfinal
  obtain ⟨hin, hin'⟩ := hfactor hentry
  obtain ⟨hout, hout'⟩ := hfactor hexit
  refine ⟨?_, ?_, fun hzero => ?_⟩
  · rw [hinitial', hin]
    exact hin'
  · rw [hfinal', hout]
    exact hout'
  · rw [hfinal', hzero, zero_div, mul_zero, Int.ceil_zero]
    rfl

/-- In a plan the initial and the final rate of a block are at most its nominal rate. -/
theorem plan_rates (h : PlanInv cfg ms) (hdriven : ∀ b ∈ ms, Driven b)
    (hrate : ∀ b ∈ ms, RateInRange b) :
    ∀ b ∈ ms, b.initialRate ≤ b.nominalRate ∧ b.finalRate ≤ b.nominalRate := by
  induction ms with
  | nil => exact fun b hb => absurd hb (by simp)
  | cons b ms ih =>
      have hlow := h.low hdriven
      have hnominal := (hdriven b List.mem_cons_self).nominal_pos
      have hentry : 0 ≤ b.entrySpeed ∧ b.entrySpeed ≤ b.nominalSpeed :=
        ⟨hlow b List.mem_cons_self, (h.capped b List.mem_cons_self).trans
          ((h.sound b List.mem_cons_self).max_le_nominal
            (hdriven b List.mem_cons_self))⟩
      have hfirst : b.initialRate ≤ b.nominalRate ∧ b.finalRate ≤ b.nominalRate := by
        cases ms with
        | nil =>
            have hfits : MotionPlanner.Fits b 0 := h.fresh
            obtain ⟨hinitial, hfinal, -⟩ := Fits.rates hfits hnominal
              (hrate b List.mem_cons_self) hentry ⟨le_rfl, hnominal.le⟩
            exact ⟨hinitial, hfinal⟩
        | cons n ms =>
            have hjoined : n.maxEntrySpeed ≤ max 0 b.nominalSpeed :=
              (List.isChain_cons_cons.1 h.joined).1
            rw [max_eq_right hnominal.le] at hjoined
            obtain ⟨hinitial, hfinal, -⟩ := Fits.rates h.fresh.1 hnominal
              (hrate b List.mem_cons_self) hentry
              ⟨hlow n (by simp), (h.capped n (by simp)).trans hjoined⟩
            exact ⟨hinitial, hfinal⟩
      exact List.forall_mem_cons.2 ⟨hfirst, ih h.tail
        (fun c hc => hdriven c (List.mem_cons_of_mem _ hc))
        fun c hc => hrate c (List.mem_cons_of_mem _ hc)⟩

/-! ## A move in front of a wait -/

/-- A move that ends at rest. -/
structure Held (cfg : Configuration ℝ) (b : Block ℝ) : Prop where
  move : b.actionType = .move
  sound : Sound cfg b
  driven : Driven b
  rate : RateInRange b
  low : 0 ≤ b.entrySpeed
  capped : b.entrySpeed ≤ b.maxEntrySpeed
  quiet : b.recalculateFlag = false
  fits : MotionPlanner.Fits b 0

/-- A block stays able to stop at a wait when its trapezoid is computed again, if the
wait is entered at rest or is not flagged. -/
theorem Held.trapezoid (h : Held cfg b) (hw : w.entrySpeed = 0 ∨ w.recalculateFlag = false) :
    Held cfg (trapezoidJunction b w) := by
  unfold trapezoidJunction
  split
  · next hflags =>
    have hzero : w.entrySpeed = 0 := by
      refine hw.resolve_right fun hquiet => ?_
      rw [h.quiet, hquiet] at hflags
      exact absurd hflags (by simp)
    have hfixed := retrapezoid_fixed b w.entrySpeed
    have hentry := retrapezoid_entrySpeed b w.entrySpeed
    refine ⟨(actionType_of_fixed hfixed).trans h.move, h.sound.of_fixed hfixed,
      h.driven.of_fixed hfixed, h.rate.of_fixed hfixed, hentry ▸ h.low, ?_, rfl, ?_⟩
    · rw [hentry, max_of_fixed hfixed]
      exact h.capped
    · have hfits := retrapezoid_fits b w.entrySpeed
      rw [hzero] at hfits ⊢
      exact hfits
  · exact h

/-- The junction limit of a wait that is not the newest block. -/
theorem reverseJunction_wait (hmax : w.maxEntrySpeed = 0) (hn : 0 ≤ n.entrySpeed) :
    (reverseJunction cfg w n).entrySpeed = 0 := by
  unfold reverseJunction
  split
  · dsimp only
    rw [hmax]
    rw [if_neg]
    simp only [Bool.and_eq_true, decide_eq_true_eq, not_and, gt_iff_lt, not_lt]
    exact fun _ => hn
  · next heq => exact (not_not.1 heq).trans hmax

/-- The move keeps ending at rest when a block is queued behind the wait. -/
theorem Held.recalculate (h : Held cfg b) (hmax : w.maxEntrySpeed = 0)
    (hbs : ∀ c ∈ n :: bs, Forward c) :
    ∃ b', (recalculateQueue cfg (b :: w :: n :: bs)).head? = some b' ∧ Held cfg b' := by
  obtain ⟨n', bs', hn, hfull⟩ := Ring.scanRight_cons_cons (reverseJunction cfg) w n bs
  have hn' : 0 ≤ n'.entrySpeed := by
    have hscan := forall_of_forall₂ (Ring.scanRight_forall₂ (fun _ => id)
      (@reverseJunction_forward cfg) (n :: bs)) hbs
    rw [hn] at hscan
    exact (hscan n' List.mem_cons_self).entry
  have hentry : (reverseJunction cfg w n').entrySpeed = 0 :=
    reverseJunction_wait hmax hn'
  refine ⟨trapezoidJunction b (reverseJunction cfg w n'), ?_, h.trapezoid (.inl hentry)⟩
  unfold recalculateQueue
  rw [reverseQueue, hfull, forwardQueue, Ring.scanLeft,
    forwardJunction_atRest h.low hentry]
  rfl

/-- A move keeps its shape in front of a wait that is entered at 600 mm/min, if it is
long enough to reach that speed. -/
theorem Held.recalculate_wait (h : Held cfg b) (hentry : w.entrySpeed = 600)
    (hquiet : w.recalculateFlag = false)
    (hlong : b.nominalLengthFlag = true ∨
      600 ≤ maxAllowableSpeed (-cfg.acceleration) b.entrySpeed b.millimeters) :
    ∃ b', (recalculateQueue cfg [b, w]).head? = some b' ∧ Held cfg b' := by
  have hforward : forwardJunction cfg b w = w := by
    unfold forwardJunction
    split
    · next hslow =>
      have hflag : b.nominalLengthFlag = false := by
        rw [Bool.and_eq_true] at hslow
        simpa using hslow.1
      have hreach := hlong.resolve_left (by simp [hflag])
      dsimp only
      rw [hentry, min_eq_left hreach, if_neg (by simp)]
    · rfl
  refine ⟨trapezoidJunction b w, ?_, h.trapezoid (.inr hquiet)⟩
  unfold recalculateQueue
  rw [reverseQueue, Ring.scanRight, forwardQueue, Ring.scanLeft, hforward]
  rfl

/-! ## The parts of the queue -/

/-- Waits are points of rest. -/
structure RestsAtWaits (bs : List (Block ℝ)) : Prop where
  before : bs.IsChain fun b n =>
    b.actionType = .move → n.actionType = .waitTemps → b.finalRate = 0
  after : bs.IsChain fun b n =>
    b.actionType = .waitTemps → n.actionType = .move → n.entrySpeed = 0
  rates : ∀ b ∈ bs, b.actionType = .move →
    b.initialRate ≤ b.nominalRate ∧ b.finalRate ≤ b.nominalRate

/-- The queue: at most one move that waits are behind, the waits, and the moves behind
these. -/
structure Parts (cfg : Configuration ℝ) (pre ws ms : List (Block ℝ)) : Prop where
  waits : ∀ b ∈ ws, b.actionType = .waitTemps ∧ Forward b
  plan : PlanInv cfg ms
  driven : ∀ b ∈ ms, Driven b
  moves : ∀ b ∈ ms, b.actionType = .move ∧ RateInRange b
  rest : ws ≠ [] → ∀ b, ms.head? = some b → b.maxEntrySpeed = 0
  held : ∀ b ∈ pre, pre = [b] ∧ Held cfg b ∧
    ∃ w, ws.head? = some w ∧ w.maxEntrySpeed = 0

section Parts

variable {pre : List (Block ℝ)}

/-- No block in front of the last wait has a negative speed. -/
theorem Parts.forward_front (h : Parts cfg pre ws ms) : ∀ b ∈ pre, Forward b :=
  fun b hb => ⟨(h.held b hb).2.1.low, (h.held b hb).2.1.driven.max_nonneg⟩

/-- A queue made of these three parts is at rest at each of its waits. -/
theorem Parts.rests (h : Parts cfg pre ws ms) : RestsAtWaits (pre ++ (ws ++ ms)) := by
  have hcross : ws ≠ [] → ∀ b, ms.head? = some b → b.entrySpeed = 0 := by
    intro hne b hb
    have hmem := List.mem_of_mem_head? hb
    exact le_antisymm ((h.plan.capped b hmem).trans (h.rest hne b hb).le)
      (h.plan.low h.driven b hmem)
  -- a relation that holds behind a wait holds in all but the first pair
  have hchain : ∀ {r : Block ℝ → Block ℝ → Prop},
      (∀ b n, b.actionType = .waitTemps → n.actionType = .waitTemps → r b n) →
      (∀ b n, b.actionType = .move → n.actionType = .move → r b n) →
      (∀ b n, b.actionType = .waitTemps → n.actionType = .move → n.entrySpeed = 0 → r b n) →
      (∀ b n, Held cfg b → n.actionType = .waitTemps → r b n) →
      (pre ++ (ws ++ ms)).IsChain r := by
    intro r hww hmm hwm hheld
    have htail : (ws ++ ms).IsChain r := by
      rw [List.isChain_append]
      refine ⟨?_, ?_, fun b hb n hn => ?_⟩
      · exact (List.pairwise_of_forall_mem_list fun b hb n hn =>
          hww b n (h.waits b hb).1 (h.waits n hn).1).isChain
      · exact (List.pairwise_of_forall_mem_list fun b hb n hn =>
          hmm b n (h.moves b hb).1 (h.moves n hn).1).isChain
      · have hmem := List.mem_of_mem_getLast? hb
        exact hwm b n (h.waits b hmem).1 (h.moves n (List.mem_of_mem_head? hn)).1
          (hcross (List.ne_nil_of_mem hmem) n hn)
    rw [List.isChain_append]
    refine ⟨?_, htail, fun b hb n hn => ?_⟩
    · cases pre with
      | nil => exact List.isChain_nil
      | cons b l =>
          rw [(h.held b List.mem_cons_self).1]
          exact List.isChain_singleton b
    · obtain ⟨-, hb', w, hw, -⟩ := h.held b (List.mem_of_mem_getLast? hb)
      have hhead : (ws ++ ms).head? = some w := by
        rw [List.head?_append, hw]
        rfl
      rw [hhead] at hn
      rw [← Option.some.inj hn]
      exact hheld b w hb' (h.waits w (List.mem_of_mem_head? hw)).1
  have hmoves := plan_rates h.plan h.driven fun b hb => (h.moves b hb).2
  have hends : ∀ b, Held cfg b → b.initialRate ≤ b.nominalRate ∧
      b.finalRate ≤ b.nominalRate ∧ b.finalRate = 0 := by
    intro b hb
    have hnominal := hb.driven.nominal_pos
    obtain ⟨hinitial, hfinal, hzero⟩ := Fits.rates hb.fits hnominal hb.rate
      ⟨hb.low, hb.capped.trans (hb.sound.max_le_nominal hb.driven)⟩
      ⟨le_rfl, hnominal.le⟩
    exact ⟨hinitial, hfinal, hzero rfl⟩
  have hkinds : ∀ {b : Block ℝ}, b.actionType = .move → b.actionType ≠ .waitTemps := by
    intro b hb
    rw [hb]
    decide
  refine ⟨hchain ?_ ?_ ?_ ?_, hchain ?_ ?_ ?_ ?_, fun b hb hmove => ?_⟩
  · exact fun b n hb _ hb' _ => absurd hb (hkinds hb')
  · exact fun b n _ hn _ hn' => absurd hn' (hkinds hn)
  · exact fun b n hb _ _ hb' _ => absurd hb (hkinds hb')
  · exact fun b n hb _ _ _ => (hends b hb).2.2
  · exact fun b n _ hn _ hn' => absurd hn (hkinds hn')
  · exact fun b n hb _ hb' _ => absurd hb' (hkinds hb)
  · exact fun b n _ _ hzero _ _ => hzero
  · exact fun b n hb _ hb' _ => absurd hb' (hkinds hb.move)
  · rcases List.mem_append.1 hb with hb | hb
    · obtain ⟨hinitial, hfinal, -⟩ := hends b (h.held b hb).2.1
      exact ⟨hinitial, hfinal⟩
    · rcases List.mem_append.1 hb with hb | hb
      · exact absurd (h.waits b hb).1 (hkinds hmove)
      · exact hmoves b hb

/-- Each block of a replanned queue has the fixed fields of some block of the queue
before. -/
theorem fixed_of_mem {l l' : List (Block ℝ)} (h : l'.map Block.fixed = l.map Block.fixed)
    {c : Block ℝ} (hc : c ∈ l') : ∃ b ∈ l, c.fixed = b.fixed := by
  have hmem : c.fixed ∈ l.map Block.fixed := h ▸ List.mem_map_of_mem hc
  obtain ⟨b, hb, hfixed⟩ := List.mem_map.1 hmem
  exact ⟨b, hb, hfixed.symm⟩

/-- Replanning keeps the fixed fields of the first block of the queue. -/
theorem head?_of_fixed {l l' : List (Block ℝ)}
    (h : l'.map Block.fixed = l.map Block.fixed) {c : Block ℝ} (hc : l'.head? = some c) :
    ∃ b, l.head? = some b ∧ c.fixed = b.fixed := by
  have hhead := congrArg List.head? h
  rw [List.head?_map, List.head?_map, hc] at hhead
  obtain ⟨b, hb, hfixed⟩ := Option.map_eq_some_iff.1 hhead.symm
  exact ⟨b, hb, hfixed.symm⟩

/-- Replanning a queue in parts, the last of which starts from rest. -/
theorem parts_recalculate (hwaits : ∀ b ∈ ws, b.actionType = .waitTemps ∧ Forward b)
    (hms : ∀ b ∈ ms, b.actionType = .move ∧ RateInRange b ∧ Forward b)
    (hdriven : ∀ b ∈ ms, Driven b)
    (hplan : PlanInv cfg (recalculateQueue cfg ms))
    (hrest : ws ≠ [] → ∀ b, ms.head? = some b → b.maxEntrySpeed = 0 ∧ b.entrySpeed = 0)
    (hpre : ∀ b ∈ pre, pre = [b] ∧ Forward b ∧
      (∃ w, ws.head? = some w ∧ w.maxEntrySpeed = 0) ∧
      ∃ b', (recalculateQueue cfg (pre ++ (ws ++ ms))).head? = some b' ∧ Held cfg b') :
    ∃ pre' ws', recalculateQueue cfg (pre ++ (ws ++ ms)) =
        pre' ++ (ws' ++ recalculateQueue cfg ms) ∧
      Parts cfg pre' ws' (recalculateQueue cfg ms) := by
  have hforward : ∀ b ∈ pre ++ (ws ++ ms), Forward b := by
    intro b hb
    rcases List.mem_append.1 hb with hb | hb
    · exact (hpre b hb).2.1
    · rcases List.mem_append.1 hb with hb | hb
      · exact (hwaits b hb).2
      · exact (hms b hb).2.2
  obtain ⟨l, hl⟩ : ∃ l, recalculateQueue cfg (pre ++ (ws ++ ms)) =
      l ++ recalculateQueue cfg ms := by
    rw [← List.append_assoc] at hforward ⊢
    cases ms with
    | nil => exact ⟨_, by rw [List.append_nil]; exact (List.append_nil _).symm⟩
    | cons m ms =>
        by_cases hne : pre ++ ws = []
        · exact ⟨[], by rw [hne]; rfl⟩
        · have hws : ws ≠ [] := by
            rintro rfl
            rw [List.append_nil] at hne
            obtain ⟨b, l, rfl⟩ := List.exists_cons_of_ne_nil hne
            obtain ⟨-, -, ⟨w, hw, -⟩, -⟩ := hpre b List.mem_cons_self
            exact absurd hw (by simp)
          obtain ⟨hmax, hentry⟩ := hrest hws m rfl
          exact recalculate_append hne hforward hmax hentry
  have hfixed : l.map Block.fixed = (pre ++ ws).map Block.fixed := by
    have hall := recalculateQueue_fixed cfg (pre ++ (ws ++ ms))
    rw [hl, List.map_append, recalculateQueue_fixed, ← List.append_assoc] at hall
    exact List.append_cancel_right (hall.trans List.map_append)
  obtain ⟨pre', ws', rfl, hpre', hws'⟩ : ∃ pre' ws', l = pre' ++ ws' ∧
      pre'.map Block.fixed = pre.map Block.fixed ∧
      ws'.map Block.fixed = ws.map Block.fixed := by
    rw [List.map_append] at hfixed
    obtain ⟨pre', ws', hsplit, hpre', hws'⟩ := List.map_eq_append_iff.1 hfixed
    exact ⟨pre', ws', hsplit, hpre', hws'⟩
  rw [List.append_assoc] at hl
  have hkept : ∀ b ∈ recalculateQueue cfg (pre ++ (ws ++ ms)), Forward b :=
    recalculateQueue_forward hforward
  refine ⟨pre', ws', hl, ?_, hplan,
    driven_of_fixed (recalculateQueue_fixed cfg ms) hdriven, ?_, ?_, ?_⟩
  · intro b hb
    obtain ⟨a, ha, hab⟩ := fixed_of_mem hws' hb
    refine ⟨(actionType_of_fixed hab).trans (hwaits a ha).1, hkept b ?_⟩
    rw [hl]
    exact List.mem_append_right _ (List.mem_append_left _ hb)
  · intro b hb
    obtain ⟨a, ha, hab⟩ := fixed_of_mem (recalculateQueue_fixed cfg ms) hb
    exact ⟨(actionType_of_fixed hab).trans (hms a ha).1, (hms a ha).2.1.of_fixed hab⟩
  · intro hne b hb
    obtain ⟨a, ha, hab⟩ := head?_of_fixed (recalculateQueue_fixed cfg ms) hb
    have hne' : ws ≠ [] := by
      rintro rfl
      exact hne (List.map_eq_nil_iff.1 hws')
    exact (max_of_fixed hab).trans (hrest hne' a ha).1
  · intro b hb
    obtain ⟨a, ha, -⟩ := fixed_of_mem hpre' hb
    obtain ⟨hsingle, -, ⟨w, hw, hmax⟩, b', hb', hheld⟩ := hpre a ha
    rw [hsingle] at hpre'
    obtain ⟨c, rfl, -⟩ := List.map_eq_singleton_iff.1 hpre'
    rw [hl] at hb'
    obtain rfl : c = b' := Option.some.inj hb'
    obtain rfl := List.mem_singleton.1 hb
    refine ⟨rfl, hheld, ?_⟩
    have hhead := head?_of_fixed hws'.symm hw
    obtain ⟨w', hw', hww⟩ := hhead
    exact ⟨w', hw', (max_of_fixed hww).symm.trans hmax⟩

end Parts

/-! ## Runs -/

variable {pl : Planner ℝ} {pAction : ActionRequest ℝ}

/-- A request for a move at a positive feed rate, or for a wait. -/
def Requested (pAction : ActionRequest ℝ) : Prop :=
  ((pAction.actionType = .move ∨ pAction.actionType = .moveEndstop) ∧
    0 < pAction.target.feedRate) ∨ pAction.actionType = .waitTemps

/-- The planners reached by moves, waits and discards, where each request meets a
condition. -/
inductive ActionRun (cfg : Configuration ℝ) (ok : Planner ℝ → ActionRequest ℝ → Prop) :
    Planner ℝ → Prop
  | init (pl : Planner ℝ) : (∀ j, 0 ≤ (pl.blockBuffer j).maxEntrySpeed) →
      ActionRun cfg ok (planInit pl)
  | action {pl : Planner ℝ} (pAction : ActionRequest ℝ) : ActionRun cfg ok pl →
      planQueueFull pl = false → Requested pAction → ok pl pAction →
      ActionRun cfg ok (planBufferAction cfg pAction pl).1
  | discard {pl : Planner ℝ} : ActionRun cfg ok pl →
      ActionRun cfg ok (planDiscardCurrentBlock pl)

/-- No speed is on record, or the path turns back. -/
def StartsAtRest (cfg : Configuration ℝ) (pl : Planner ℝ) (pAction : ActionRequest ℝ) :
    Prop :=
  pl.previousNominalSpeed ≤ 0 ∨
    95 / 100 ≤ cosTheta pl.previousUnitVec (lineUnitVec cfg pAction pl)

/-- The free slot is clean, and the one pending move, the newest block, is long enough
to reach the speed at which a wait is entered. -/
def Isolated (cfg : Configuration ℝ) (pl : Planner ℝ) (b : Block ℝ) : Prop :=
  pl.queue = [b] ∧
    (b.nominalLengthFlag = true ∨
      600 ≤ maxAllowableSpeed (-cfg.acceleration) b.entrySpeed b.millimeters) ∧
    (pl.blockBuffer pl.blockBufferHead).maxEntrySpeed = 0 ∧
    (pl.blockBuffer pl.blockBufferHead).recalculateFlag = false

/-- The duration of a move is a positive `long`. -/
def InTime (cfg : Configuration ℝ) (pl : Planner ℝ) (pAction : ActionRequest ℝ) : Prop :=
  zeroLength cfg pAction pl = false →
    1 ≤ SpeedLimit.rounded cfg pAction pl ∧ SpeedLimit.rounded cfg pAction pl ≤ 2147483647

/-- A wait that is queued behind a move finds it isolated; a move has a duration that
fits, and starts from rest if it is queued behind a wait. -/
def Harmless (cfg : Configuration ℝ) (pl : Planner ℝ) (pAction : ActionRequest ℝ) : Prop :=
  if pAction.actionType = .waitTemps then
    ∀ b, pl.queue.getLast? = some b → b.actionType = .move → Isolated cfg pl b
  else
    InTime cfg pl pAction ∧ ∀ b, pl.queue.getLast? = some b →
      b.actionType = .waitTemps → StartsAtRest cfg pl pAction

/-- The invariant of a run. -/
structure WaitInv (cfg : Configuration ℝ) (pl : Planner ℝ) : Prop where
  wf : pl.WF
  enabled : pl.accelerationManagerEnabled = true
  slots : ∀ j, 0 ≤ (pl.blockBuffer j).maxEntrySpeed
  quiet : ∀ b ∈ pl.queue, b.recalculateFlag = false
  parts : ∃ pre ws ms, pl.queue = pre ++ (ws ++ ms) ∧ Parts cfg pre ws ms ∧
    ∀ b, ms.getLast? = some b → b.nominalSpeed = pl.previousNominalSpeed

/-- The junction speed is zero behind a point where the path starts from rest. -/
theorem vmaxJunction_rest (h : StartsAtRest cfg pl pAction) (v : ℝ) :
    vmaxJunction cfg pl (lineUnitVec cfg pAction pl) v = 0 := by
  unfold vmaxJunction minimumPlannerSpeed
  split
  · next hprevious =>
    dsimp only
    rcases h with h | h
    · exact absurd hprevious.2 (not_lt.2 h)
    · rw [if_neg (not_lt.2 h)]
  · rfl

/-- A new block behind a point of rest has a junction limit of zero. -/
theorem newBlock_rest (hon : pl.accelerationManagerEnabled = true)
    (h : StartsAtRest cfg pl pAction) : (newBlock cfg pAction pl).maxEntrySpeed = 0 := by
  rw [newBlock_eq hon]
  exact vmaxJunction_rest h _

/-- The nominal rate of a new block is stored in 32 bits, which gives its bounds. -/
theorem newBlock_rate (hon : pl.accelerationManagerEnabled = true) :
    RateInRange (newBlock cfg pAction pl) := by
  rw [newBlock_eq hon]
  exact uint32_range _

/-- A block in front of a wait that may not be entered in motion keeps its shape when
the queue is replanned. -/
theorem Held.recalculate_behind (h : Held cfg b) (hmax : w.maxEntrySpeed = 0)
    (hne : bs ≠ []) (hbs : ∀ c ∈ bs, Forward c) :
    ∃ b', (recalculateQueue cfg (b :: w :: bs)).head? = some b' ∧ Held cfg b' := by
  obtain ⟨n, bs, rfl⟩ := List.exists_cons_of_ne_nil hne
  exact h.recalculate hmax hbs

/-- A move keeps the invariant; it has to start from rest when the last block in the
queue is a wait. -/
theorem WaitInv.move (hcfg : Positive cfg) (h : WaitInv cfg pl)
    (hroom : planQueueFull pl = false) (hreq : MoveRequest cfg pAction pl)
    (hbehind : ∀ b, pl.queue.getLast? = some b → b.actionType = .waitTemps →
      StartsAtRest cfg pl pAction) :
    WaitInv cfg (planBufferLine cfg pAction pl).1 := by
  have hwf := h.wf.planBufferLine cfg pAction
  have hon := h.enabled
  obtain ⟨pre, ws, ms, hqueue, hparts, hprevious⟩ := h.parts
  by_cases hz : zeroLength cfg pAction pl = true
  · -- only the free slot is written to
    have hq : (planBufferLine cfg pAction pl).1.queue = pl.queue := by
      rw [queue_planBufferLine cfg pAction h.wf hroom, if_pos hz]
    have heq := planBufferLine_fst_of_zeroLength hz
    refine ⟨hwf, by rw [heq]; exact hon, fun j => ?_, by rw [hq]; exact h.quiet,
      ⟨pre, ws, ms, hq.trans hqueue, hparts, by rw [heq]; exact hprevious⟩⟩
    rw [heq]
    by_cases hj : j = pl.blockBufferHead
    · subst hj
      show 0 ≤ (Function.update pl.blockBuffer _ _ _).maxEntrySpeed
      rw [Function.update_self]
      exact h.slots _
    · show 0 ≤ (Function.update pl.blockBuffer _ _ _).maxEntrySpeed
      rw [Function.update_of_ne hj]
      exact h.slots j
  · rw [Bool.not_eq_true] at hz
    have hq := queue_line h.wf hroom hon hz
    have hrest := finishPlan_eq cfg (publishLine cfg pAction pl)
    have hsound := newBlock_sound hcfg hon hz
    have hnew := newBlock_driven hcfg hon hreq hz
    have hextended : Extended cfg (ms ++ [newBlock cfg pAction pl]) := by
      refine hparts.plan.extend hcfg hsound (newBlock_entry hon) (newBlock_flag hon)
        fun b hb => ?_
      show (newBlock cfg pAction pl).maxEntrySpeed ≤ max 0 b.nominalSpeed
      rw [hprevious b hb]
      exact newBlock_max_le hon
    have hdriven : ∀ b ∈ ms ++ [newBlock cfg pAction pl], Driven b := by
      intro b hb
      rcases List.mem_append.1 hb with hb | hb
      · exact hparts.driven b hb
      · rw [List.mem_singleton.1 hb]
        exact hnew
    have hms : ∀ b ∈ ms ++ [newBlock cfg pAction pl],
        b.actionType = .move ∧ RateInRange b ∧ Forward b := by
      intro b hb
      have hforward : Forward b :=
        ⟨(hextended.steady b hb).low (hdriven b hb), (hdriven b hb).max_nonneg⟩
      rcases List.mem_append.1 hb with hb | hb
      · exact ⟨(hparts.moves b hb).1, (hparts.moves b hb).2, hforward⟩
      · rw [List.mem_singleton.1 hb] at hforward ⊢
        exact ⟨newBlock_motion.1, newBlock_rate hon, hforward⟩
    have hstart : ws ≠ [] → ∀ b, (ms ++ [newBlock cfg pAction pl]).head? = some b →
        b.maxEntrySpeed = 0 ∧ b.entrySpeed = 0 := by
      intro hne b hb
      have hmem := List.mem_of_mem_head? hb
      have hmax : b.maxEntrySpeed = 0 := by
        cases ms with
        | nil =>
            obtain ⟨w, hw⟩ := List.getLast?_isSome.2 hne |> Option.isSome_iff_exists.1
            have hlast : pl.queue.getLast? = some w := by
              rw [hqueue, List.append_nil, List.getLast?_append, hw]
              rfl
            rw [← Option.some.inj hb]
            exact newBlock_rest hon (hbehind w hlast
              (hparts.waits w (List.mem_of_getLast? hw)).1)
        | cons m ms => exact hparts.rest hne b hb
      exact ⟨hmax, le_antisymm ((hextended.capped b hmem).trans hmax.le)
        (hms b hmem).2.2.entry⟩
    obtain ⟨pre', ws', hqueue', hparts'⟩ := parts_recalculate hparts.waits hms hdriven
      (hextended.plan hcfg) hstart fun b hb => by
        obtain ⟨hsingle, hheld, w, hw, hmax⟩ := hparts.held b hb
        obtain ⟨ws, rfl⟩ := List.head?_eq_some_iff.1 hw
        refine ⟨hsingle, hparts.forward_front b hb, ⟨w, hw, hmax⟩, ?_⟩
        rw [hsingle]
        refine hheld.recalculate_behind hmax (by simp) fun c hc => ?_
        rcases List.mem_append.1 hc with hc | hc
        · exact (hparts.waits c (List.mem_cons_of_mem _ hc)).2
        · exact (hms c hc).2.2
    have hq' : (planBufferLine cfg pAction pl).1.queue =
        recalculateQueue cfg (pre ++ (ws ++ (ms ++ [newBlock cfg pAction pl]))) := by
      rw [hq, hqueue]
      simp only [List.append_assoc]
    refine ⟨hwf, ?_, fun j => ?_, ?_, ⟨pre', ws', _, hq'.trans hqueue', hparts', ?_⟩⟩
    · rw [planBufferLine_fst hz, hrest]
      exact hon
    · rw [planBufferLine_fst hz, max_of_fixed (finishPlan_fixed cfg _ j)]
      by_cases hj : j = pl.blockBufferHead
      · subst hj
        show 0 ≤ (Function.update pl.blockBuffer _ _ _).maxEntrySpeed
        rw [Function.update_self]
        exact hnew.max_nonneg
      · show 0 ≤ (Function.update pl.blockBuffer _ _ _).maxEntrySpeed
        rw [Function.update_of_ne hj]
        exact h.slots j
    · rw [hq']
      exact recalculateQueue_flags _
    · intro b hb
      rw [nominal_of_fixed (getLast?_recalculate hb), planBufferLine_fst hz, hrest]
      exact (if_pos hon).symm

/-- A wait keeps the invariant if the move in front of it stands alone in the queue and
can stop at its end. -/
theorem WaitInv.wait (h : WaitInv cfg pl) (hroom : planQueueFull pl = false)
    (hkind : pAction.actionType = .waitTemps)
    (hbehind : ∀ b, pl.queue.getLast? = some b → b.actionType = .move →
      Isolated cfg pl b) :
    WaitInv cfg (planBufferWait cfg pAction pl).1 := by
  have hwf := h.wf.planBufferWait cfg pAction
  have hon := h.enabled
  obtain ⟨pre, ws, ms, hqueue, hparts, hprevious⟩ := h.parts
  obtain ⟨w, hw⟩ : ∃ w, w = waitBlock pAction.actionType
      (pl.blockBuffer pl.blockBufferHead) := ⟨_, rfl⟩
  have hq : (planBufferWait cfg pAction pl).1.queue =
      recalculateQueue cfg (pl.queue ++ [w]) := by
    rw [queue_planBufferWait cfg pAction h.wf hroom, hon, hw]
    rfl
  have hwait : w.actionType = .waitTemps ∧ Forward w := by
    rw [hw]
    exact ⟨hkind, by norm_num [waitBlock], h.slots _⟩
  have hplan : PlanInv cfg (recalculateQueue cfg []) := PlanInv.nil
  -- the rest of the invariant
  suffices hsuffices : ∃ pre' ws', (planBufferWait cfg pAction pl).1.queue =
      pre' ++ (ws' ++ []) ∧ Parts cfg pre' ws' [] by
    obtain ⟨pre', ws', hqueue', hparts'⟩ := hsuffices
    refine ⟨hwf, ?_, fun j => ?_, ?_, ⟨pre', ws', [], hqueue', hparts', by simp⟩⟩
    · rw [planBufferWait, finishPlan_eq]
      exact hon
    · rw [planBufferWait, max_of_fixed (finishPlan_fixed cfg _ j)]
      by_cases hj : j = pl.blockBufferHead
      · subst hj
        show 0 ≤ (Function.update pl.blockBuffer _ _ _).maxEntrySpeed
        rw [Function.update_self]
        exact h.slots _
      · show 0 ≤ (Function.update pl.blockBuffer _ _ _).maxEntrySpeed
        rw [Function.update_of_ne hj]
        exact h.slots j
    · rw [hq]
      exact recalculateQueue_flags _
  rcases List.eq_nil_or_concat ms with rfl | ⟨ms, b, rfl⟩
  · -- behind a wait, or nothing
    have hwaits : ∀ b ∈ ws ++ [w], b.actionType = .waitTemps ∧ Forward b := by
      intro b hb
      rcases List.mem_append.1 hb with hb | hb
      · exact hparts.waits b hb
      · rw [List.mem_singleton.1 hb]
        exact hwait
    obtain ⟨pre', ws', hqueue', hparts'⟩ := parts_recalculate hwaits (by simp) (by simp)
      hplan (by simp) fun b hb => by
        obtain ⟨hsingle, hheld, w₀, hw₀, hmax⟩ := hparts.held b hb
        obtain ⟨ws, rfl⟩ := List.head?_eq_some_iff.1 hw₀
        refine ⟨hsingle, hparts.forward_front b hb, ⟨w₀, rfl, hmax⟩, ?_⟩
        rw [hsingle, List.append_nil]
        exact hheld.recalculate_behind hmax (by simp) fun c hc =>
          (hwaits c (List.mem_cons_of_mem _ hc)).2
    have hsame : pl.queue ++ [w] = pre ++ (ws ++ [w] ++ []) := by
      rw [hqueue]
      simp only [List.append_assoc, List.append_nil]
    exact ⟨pre', ws', by rw [hq, hsame]; exact hqueue', hparts'⟩
  · -- behind a move
    rw [List.concat_eq_append] at hqueue hparts
    have hlast : pl.queue.getLast? = some b := by
      rw [hqueue, ← List.append_assoc, ← List.append_assoc, List.getLast?_concat]
    have hmem : b ∈ ms ++ [b] := by simp
    obtain ⟨hsingle, hlong, hslot, hflag⟩ := hbehind b hlast (hparts.moves b hmem).1
    have hms : ms ++ [b] = [b] := by
      have hlength := congrArg List.length (hqueue.symm.trans hsingle)
      simp only [List.length_append, List.length_singleton] at hlength
      rw [List.length_eq_zero_iff.1 (show ms.length = 0 by omega)]
      rfl
    rw [hms] at hparts
    have hheld : Held cfg b :=
      ⟨(hparts.moves b (by simp)).1, hparts.plan.sound b (by simp),
        hparts.driven b (by simp), (hparts.moves b (by simp)).2,
        hparts.plan.low hparts.driven b (by simp), hparts.plan.capped b (by simp),
        h.quiet b (List.mem_of_getLast? hlast),
        hparts.plan.fresh⟩
    obtain ⟨pre', ws', hqueue', hparts'⟩ := parts_recalculate
      (fun c hc => by rw [List.mem_singleton.1 hc]; exact hwait) (by simp) (by simp)
      hplan (by simp) fun c hc => by
        obtain rfl := List.mem_singleton.1 hc
        refine ⟨rfl, ⟨hheld.low, hheld.driven.max_nonneg⟩, ⟨w, rfl, by rw [hw]; exact hslot⟩,
          ?_⟩
        exact hheld.recalculate_wait (by rw [hw]; rfl) (by rw [hw]; exact hflag) hlong
    exact ⟨pre', ws', by rw [hq, hsingle]; exact hqueue', hparts'⟩

/-- Taking the first block off the queue keeps the invariant. -/
theorem WaitInv.discard (h : WaitInv cfg pl) :
    WaitInv cfg (planDiscardCurrentBlock pl) := by
  have hq := queue_discard h.wf
  have heq := planDiscardCurrentBlock_eq pl
  obtain ⟨pre, ws, ms, hqueue, hparts, hprevious⟩ := h.parts
  refine ⟨h.wf.discard, by rw [heq]; exact h.enabled, fun j => by rw [heq]; exact h.slots j,
    fun b hb => h.quiet b (List.mem_of_mem_tail (hq ▸ hb)), ?_⟩
  have hrecord : (planDiscardCurrentBlock pl).previousNominalSpeed =
      pl.previousNominalSpeed := by rw [heq]
  rw [hq, hqueue, hrecord]
  cases pre with
  | cons b l =>
      obtain ⟨hsingle, -⟩ := hparts.held b List.mem_cons_self
      obtain ⟨-, rfl⟩ := List.cons.inj hsingle
      exact ⟨[], ws, ms, rfl, ⟨hparts.waits, hparts.plan, hparts.driven,
        hparts.moves, hparts.rest, by simp⟩, hprevious⟩
  | nil =>
      cases ws with
      | cons w ws =>
          refine ⟨[], ws, ms, rfl, ⟨fun b hb => hparts.waits b
            (List.mem_cons_of_mem _ hb), hparts.plan, hparts.driven, hparts.moves, fun _ =>
            hparts.rest (by simp), by simp⟩, hprevious⟩
      | nil =>
          refine ⟨[], [], ms.tail, rfl, ⟨by simp, hparts.plan.tail, fun b hb =>
            hparts.driven b (List.mem_of_mem_tail hb), fun b hb =>
            hparts.moves b (List.mem_of_mem_tail hb), by simp, by simp⟩, fun b hb => ?_⟩
          cases ms with
          | nil => exact absurd hb (by simp)
          | cons c cs =>
              refine hprevious b ?_
              rw [List.getLast?_cons, show cs.getLast? = some b from hb]
              rfl

/-- The invariant holds along every run of harmless requests. -/
theorem ActionRun.inv (hcfg : Positive cfg) (h : ActionRun cfg (Harmless cfg) pl) :
    WaitInv cfg pl := by
  induction h with
  | init pl hslots =>
      refine ⟨planInit_wf pl, rfl, hslots, ?_, [], [], [], ?_,
        ⟨by simp, PlanInv.nil, by simp, by simp, by simp, by simp⟩, by simp⟩
      · rw [planInit_queue]
        simp
      · rw [planInit_queue]
        rfl
  | @action pl pAction _ hroom hrequest hok ih =>
      rcases hrequest with ⟨hmove, hfeed⟩ | hwait
      · have hkind : pAction.actionType ≠ .waitTemps := by
          rcases hmove with h | h <;> rw [h] <;> decide
        have hline : planBufferAction cfg pAction pl = planBufferLine cfg pAction pl := by
          unfold planBufferAction
          rcases hmove with h | h <;> rw [h]
        rw [Harmless, if_neg hkind] at hok
        have hreq : MoveRequest cfg pAction pl :=
          ⟨⟨hmove, hfeed, fun hz => (hok.1 hz).1⟩, fun hz => (hok.1 hz).2⟩
        rw [hline]
        exact ih.move hcfg hroom hreq hok.2
      · have hqueued : planBufferAction cfg pAction pl = planBufferWait cfg pAction pl := by
          unfold planBufferAction
          rw [hwait]
        rw [Harmless, if_pos hwait] at hok
        rw [hqueued]
        exact ih.wait hroom hwait hok
  | discard _ ih => exact ih.discard

/-- In every run of harmless requests, waits are points of rest. -/
theorem waits_at_rest (hcfg : Positive cfg) (h : ActionRun cfg (Harmless cfg) pl) :
    RestsAtWaits pl.queue := by
  obtain ⟨pre, ws, ms, hqueue, hparts, -⟩ := (ActionRun.inv hcfg h).parts
  rw [hqueue]
  exact hparts.rests

/-! ## One move and a wait -/

/-- The first block of a move of `n` steps. -/
noncomputable def firstBlock (n : Int) : Block ℝ :=
  newBlock Configuration.default (moveX n) (planInit .zero)

/-- A request to wait for the temperatures. -/
noncomputable def waitTemps : ActionRequest ℝ := ⟨.waitTemps, .zero⟩

/-- The planner after a move of `n` steps. -/
noncomputable def moved (n : Int) : Planner ℝ :=
  (planBufferAction Configuration.default (moveX n) (planInit .zero)).1

/-- The planner after a move of `n` steps and a wait behind it. -/
noncomputable def movedWaiting (n : Int) : Planner ℝ :=
  (planBufferAction Configuration.default waitTemps (moved n)).1

section FirstBlock

variable {n : Int}

/-- The first move behind an empty queue starts from rest. -/
theorem firstBlock_limits : (firstBlock n).maxEntrySpeed = 0 ∧
    (firstBlock n).entrySpeed = 0 := by
  have hmax : (firstBlock n).maxEntrySpeed = 0 := newBlock_rest rfl (.inl le_rfl)
  refine ⟨hmax, ?_⟩
  have hentry : (firstBlock n).entrySpeed = min (firstBlock n).maxEntrySpeed _ :=
    newBlock_entry rfl
  rw [hentry, hmax]
  exact min_eq_left (reach_nonneg _ _)

/-- The length of the move is its number of steps over the 80 steps of a millimetre. -/
theorem firstBlock_millimeters (hlo : 0 < n) (hhi : n < 1000) :
    (firstBlock n).millimeters = n / 80 := by
  rw [firstBlock, newBlock_eq rfl]
  exact moveX_millimeters hlo hhi

/-- A move of `n` steps at 600 mm/min takes `n / 48000` minutes. -/
theorem firstBlock_multiplier (hlo : 0 < n) (hhi : n < 1000) :
    SpeedLimit.multiplier Configuration.default (moveX n) (planInit .zero) = 48000 / n := by
  have hn : (n : ℝ) ≠ 0 := by exact_mod_cast hlo.ne'
  have hbase : (60 * 1000000 / ((1250 * n : Int) : ℝ)) = 48000 / n := by
    push_cast
    field_simp
    norm_num
  have hspeed : (fun a => lineDelta Configuration.default (moveX n) (planInit .zero) a *
      (48000 / n : ℝ)) = fun a => if a = .x then 600 else 0 := by
    funext a
    rw [moveX_delta hlo.le hhi]
    split
    · field_simp
      norm_num
    · exact zero_mul _
  have hfactor : moveSpeedFactor (Configuration.default : Configuration ℝ)
      (fun a => if a = .x then 600 else 0) = 1 := by
    have hlimits := SpeedLimit.moveSpeedFactor_limits
      (fun a => if a = .x then (600 : ℝ) else 0) default_positive.maximumFeedrate
    refine hlimits.largest.resolve_right fun ⟨a, _, heq⟩ => ?_
    have hpos : (0 : ℝ) < (Configuration.default : Configuration ℝ).maximumFeedrate a := by
      exact_mod_cast default_positive.maximumFeedrate a
    by_cases ha : a = .x
    · subst ha
      have hmax : (600 : ℝ) < (Configuration.default : Configuration ℝ).maximumFeedrate .x := by
        have h : (600 : Int) < (Configuration.default : Configuration ℝ).maximumFeedrate .x := by
          decide
        exact_mod_cast h
      rw [if_pos rfl, abs_of_pos (by norm_num)] at heq
      have hone := hlimits.le_one
      linarith
    · rw [if_neg ha, abs_zero, zero_mul] at heq
      exact hpos.ne heq
  have hpath : SpeedLimit.path Configuration.default (moveX n) (planInit .zero) =
      lineDelta Configuration.default (moveX n) (planInit .zero) := rfl
  unfold SpeedLimit.multiplier moveMultiplier
  dsimp only
  rw [hpath, moveX_microseconds hlo hhi, hbase, hspeed, hfactor, mul_one]

/-- The move runs at 600 mm/min, which is 48000 steps a minute. -/
theorem firstBlock_nominal (hlo : 0 < n) (hhi : n < 1000) :
    (firstBlock n).nominalSpeed = 600 ∧ (firstBlock n).nominalRate = 48000 := by
  have hn : (n : ℝ) ≠ 0 := by exact_mod_cast hlo.ne'
  obtain ⟨hspeed, hrate⟩ := SpeedLimit.newBlock_rates Configuration.default (moveX n)
    (planInit (.zero : Planner ℝ))
  have hcount : (firstBlock n).stepEventCount = n := moveX_eventCount hlo hhi
  constructor
  · rw [firstBlock, hspeed, firstBlock_multiplier hlo hhi]
    show (firstBlock n).millimeters * _ = 600
    rw [firstBlock_millimeters hlo hhi]
    field_simp
    norm_num
  · rw [firstBlock, hrate, firstBlock_multiplier hlo hhi]
    show uint32 ⌈((firstBlock n).stepEventCount : ℝ) * _⌉ = _
    rw [hcount]
    have h : (n : ℝ) * (48000 / n) = ((48000 : Int) : ℝ) := by
      field_simp
      norm_num
    rw [h, Int.ceil_intCast]
    rfl

/-- The speed the move can reach from rest grows with the root of its length. -/
theorem firstBlock_reach (hlo : 0 < n) (hhi : n < 1000) :
    maxAllowableSpeed (-(Configuration.default : Configuration ℝ).acceleration) 0
      (firstBlock n).millimeters = Real.sqrt (9000 * n) := by
  rw [firstBlock_millimeters hlo hhi]
  show Real.sqrt (allowableSquare (-100) 0 ((n : ℝ) / 80)) = _
  congr 1
  unfold allowableSquare
  ring

/-- The planner marks the move as long exactly if it can reach 600 mm/min from rest. -/
theorem firstBlock_flag (hlo : 0 < n) (hhi : n < 1000) :
    (firstBlock n).nominalLengthFlag = decide (600 ≤ Real.sqrt (9000 * n)) := by
  rw [← firstBlock_reach hlo hhi, ← (firstBlock_nominal hlo hhi).1, firstBlock,
    newBlock_eq rfl]
  rfl

/-- Behind an empty queue the move is the only block, with a trapezoid that ends at
rest. -/
theorem moved_queue (hlo : 0 < n) (hhi : n < 1000) :
    (moved n).queue = [retrapezoid (firstBlock n) 0] := by
  have hempty : (planInit (.zero : Planner ℝ)).queue = [] := planInit_queue .zero
  show (planBufferLine Configuration.default (moveX n) (planInit .zero)).1.queue = _
  rw [queue_line (planInit_wf _) rfl rfl (moveX_zeroLength hlo hhi), hempty]
  rfl

/-- A move of one step or more is not dropped: it is published, and the queue replanned.
-/
theorem moved_eq (hlo : 0 < n) (hhi : n < 1000) :
    moved n = finishPlan Configuration.default
      (publishLine Configuration.default (moveX n) (planInit .zero)) :=
  planBufferLine_fst (moveX_zeroLength hlo hhi)

/-- The slot the wait will be written to has never held a block. -/
theorem moved_slot (hlo : 0 < n) (hhi : n < 1000) :
    (moved n).blockBuffer (moved n).blockBufferHead = .zero := by
  rw [moved_eq hlo hhi]
  rfl

theorem moved_ready (hlo : 0 < n) (hhi : n < 1000) :
    (moved n).WF ∧ planQueueFull (moved n) = false ∧
      (moved n).accelerationManagerEnabled = true := by
  refine ⟨(planInit_wf _).planBufferLine _ _, ?_, ?_⟩
  · rw [moved_eq hlo hhi, finishPlan_eq]
    rfl
  · rw [moved_eq hlo hhi, finishPlan_eq]
    rfl

/-- The wait is put behind the move, and the queue is replanned with both. -/
theorem movedWaiting_queue (hlo : 0 < n) (hhi : n < 1000) :
    (movedWaiting n).queue = recalculateQueue Configuration.default
      [retrapezoid (firstBlock n) 0, waitBlock .waitTemps .zero] := by
  obtain ⟨hwf, hroom, hon⟩ := moved_ready hlo hhi
  show (planBufferWait Configuration.default waitTemps (moved n)).1.queue = _
  rw [queue_planBufferWait _ _ hwf hroom, if_pos hon, moved_slot hlo hhi, moved_queue hlo hhi]
  rfl

end FirstBlock

/-- A move of 1 mm is long enough. -/
theorem moved_harmless : Harmless Configuration.default (moved 80) waitTemps := by
  rw [Harmless, if_pos (show waitTemps.actionType = .waitTemps from rfl)]
  intro b hb _
  rw [moved_queue (by decide) (by decide)] at hb
  obtain rfl : retrapezoid (firstBlock 80) 0 = b := Option.some.inj hb
  have hlong : (firstBlock 80).nominalLengthFlag = true := by
    rw [firstBlock_flag (by decide) (by decide), decide_eq_true_eq]
    exact Real.le_sqrt_of_sq_le (by norm_num)
  have hfixed := retrapezoid_fixed (firstBlock 80) 0
  refine ⟨moved_queue (by decide) (by decide),
    .inl ((congrArg (·.nominalLengthFlag) hfixed).trans hlong), ?_, ?_⟩
  · rw [moved_slot (by decide) (by decide)]
    rfl
  · rw [moved_slot (by decide) (by decide)]
    rfl

/-- A move and a wait behind it form a run of requests, whatever is asked of each
request in it. -/
theorem moved_run {n : Int} (hlo : 0 < n) (hhi : n < 1000)
    {ok : Planner ℝ → ActionRequest ℝ → Prop} (hmove : ok (planInit .zero) (moveX n))
    (hwait : ok (moved n) waitTemps) :
    ActionRun Configuration.default ok (movedWaiting n) := by
  have hmoved : ActionRun Configuration.default ok (moved n) :=
    .action (moveX n) (.init .zero fun _ => le_rfl) rfl
      (.inl ⟨.inl rfl, (moveX_request hlo hhi).feedRate_pos⟩) hmove
  exact hmoved.action waitTemps (moved_ready hlo hhi).2.1 (.inr rfl) hwait

theorem waits_at_rest_moveX : RestsAtWaits (movedWaiting 80).queue := by
  refine waits_at_rest default_positive (moved_run (by decide) (by decide) ?_ moved_harmless)
  have hreq := moveX_request (show (0 : Int) < 80 by decide) (by decide)
  rw [Harmless, if_neg (show (moveX 80).actionType ≠ .waitTemps by decide)]
  refine ⟨fun hz => ⟨hreq.duration hz, hreq.fits hz⟩, fun b hb => ?_⟩
  rw [planInit_queue] at hb
  cases hb

/-- Behind a move that is too short, a wait is entered at the speed that the move reaches. -/
theorem recalculate_short {exitSpeed : ℝ} (hw : w.entrySpeed = 600)
    (hflag : b.nominalLengthFlag = false) (hentry : b.entrySpeed < 600)
    (hreach : maxAllowableSpeed (-cfg.acceleration) b.entrySpeed b.millimeters = exitSpeed)
    (hshort : exitSpeed < 600) :
    ∃ w', recalculateQueue cfg [b, w] = [retrapezoid b exitSpeed, w'] ∧
      w'.actionType = w.actionType := by
  have hforward : forwardJunction cfg b w =
      { w with entrySpeed := exitSpeed, recalculateFlag := true } := by
    unfold forwardJunction
    rw [hflag, hreach, hw, min_eq_right hshort.le]
    simp only [Bool.not_false, Bool.true_and, decide_eq_true_eq]
    rw [if_pos hentry, if_pos hshort.ne']
  refine ⟨retrapezoid (forwardJunction cfg b w) 0, ?_, ?_⟩
  · show [trapezoidJunction b (forwardJunction cfg b w), _] = _
    rw [hforward, trapezoidJunction, if_pos (by rw [Bool.or_true])]
    rfl
  · rw [actionType_of_fixed (retrapezoid_fixed _ _),
      actionType_of_fixed (forwardJunction_fixed _ _ _)]

theorem finalRate_retrapezoid (b : Block ℝ) (exitSpeed : ℝ) :
    (retrapezoid b exitSpeed).finalRate =
      uint32 ⌈(b.nominalRate : ℝ) * (exitSpeed / b.nominalSpeed)⌉ := by
  unfold retrapezoid calculateTrapezoidForBlock
  dsimp only
  split <;> rfl

/-- A move of 0.1 mm is not long enough to reach the speed at which a wait is entered, and
so it does not end at rest. -/
theorem wait_entered_fast :
    ActionRun Configuration.default (fun _ _ => True) (movedWaiting 8) ∧
      ¬RestsAtWaits (movedWaiting 8).queue := by
  refine ⟨moved_run (by decide) (by decide) trivial trivial, ?_⟩
  rw [movedWaiting_queue (by decide) (by decide)]
  intro h
  obtain ⟨hspeed, hrate⟩ := firstBlock_nominal (show (0 : Int) < 8 by decide) (by decide)
  have hflag : (firstBlock 8).nominalLengthFlag = false := by
    rw [firstBlock_flag (by decide) (by decide), decide_eq_false_iff_not, not_le,
      Real.sqrt_lt' (by norm_num)]
    norm_num
  have hroot : 0 < Real.sqrt (9000 * 8) ∧ Real.sqrt (9000 * 8) < 600 := by
    refine ⟨Real.sqrt_pos.2 (by norm_num), ?_⟩
    rw [Real.sqrt_lt' (by norm_num)]
    norm_num
  have hentry : (retrapezoid (firstBlock 8) 0).entrySpeed = 0 :=
    (retrapezoid_entrySpeed _ _).trans firstBlock_limits.2
  have hfixed := retrapezoid_fixed (firstBlock 8) 0
  have hreach : maxAllowableSpeed (-(Configuration.default : Configuration ℝ).acceleration)
      (retrapezoid (firstBlock 8) 0).entrySpeed
      (retrapezoid (firstBlock 8) 0).millimeters = Real.sqrt (9000 * 8) := by
    rw [hentry]
    exact (congrArg (fun s : Seg ℝ => s.reach 0) (seg_of_fixed hfixed)).trans
      (firstBlock_reach (by decide) (by decide))
  obtain ⟨w', hqueue, hkind⟩ := recalculate_short (w := waitBlock .waitTemps .zero) rfl
    ((congrArg (·.nominalLengthFlag) hfixed).trans hflag)
    (hentry.trans_lt (by norm_num)) hreach hroot.2
  rw [hqueue] at h
  have hmove : (retrapezoid (retrapezoid (firstBlock 8) 0)
      (Real.sqrt (9000 * 8))).actionType = .move :=
    (actionType_of_fixed ((retrapezoid_fixed _ _).trans hfixed)).trans newBlock_motion.1
  have hzero := (List.isChain_cons_cons.1 h.before).1 hmove hkind
  have hspeed' : (retrapezoid (firstBlock 8) 0).nominalSpeed = 600 :=
    (nominal_of_fixed hfixed).trans hspeed
  have hrate' : (retrapezoid (firstBlock 8) 0).nominalRate = 48000 :=
    (congrArg (·.nominalRate) hfixed).trans hrate
  have hfactor : (0 : ℝ) < Real.sqrt (9000 * 8) / 600 ∧ Real.sqrt (9000 * 8) / 600 ≤ 1 :=
    ⟨div_pos hroot.1 (by norm_num), (div_le_one (by norm_num)).2 hroot.2.le⟩
  have hceil := Trapezoid.ceil_factor (show (0 : Int) ≤ 48000 by decide) hfactor.1.le hfactor.2
  have hpos : 0 < ⌈((48000 : Int) : ℝ) * (Real.sqrt (9000 * 8) / 600)⌉ :=
    Int.ceil_pos.2 (mul_pos (by norm_num) hfactor.1)
  rw [finalRate_retrapezoid, hspeed', hrate', uint32_of_range hceil.1 (by omega)] at hzero
  exact hpos.ne' hzero

end R2C2Firmware.Ports.WaitBlocks
