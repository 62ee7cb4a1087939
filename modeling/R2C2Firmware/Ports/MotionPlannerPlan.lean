import R2C2Firmware.Verified.Lookahead
import R2C2Firmware.Ports.MotionPlannerQueue

/-!
# One replanning step

The passes of `planner.c` take three shortcuts: blocks already at their
maximum entry speed are skipped, blocks flagged `nominal_length` are assumed to
reach any permitted speed, and trapezoids are recomputed only next to a raised
flag.  This file shows that none of them loses anything.

Speeds are exact reals.  A block is a segment of `Lookahead`: its cap is
`max_entry_speed`, and `max_allowable_speed` says what it can reach.  `PlanInv`
is what holds of the pending moves between two requests; `PlanInv.push` is the
step lemma, and `push_entries` says that the entry speeds computed by the
shortcuts are those of the plain two-pass algorithm.
-/

set_option linter.unusedSectionVars false

namespace R2C2Firmware.Ports.MotionPlanner

open R2C2Firmware.Verified.Number
open R2C2Firmware.Verified
open R2C2Firmware.Verified.Lookahead
open R2C2Firmware.Ports.Config

variable {cfg : Configuration ℝ}

/-- A configuration whose numbers make sense for motion. -/
structure Positive (cfg : Configuration ℝ) : Prop where
  stepsPerMm : ∀ a, 0 < cfg.stepsPerMm a
  acceleration : 0 < cfg.acceleration
  junctionDeviation : 0 < cfg.junctionDeviation
  maximumFeedrate : ∀ a, 0 < cfg.maximumFeedrate a

/-! ## Blocks as segments -/

/-- A block as a segment of the path. -/
noncomputable def seg (cfg : Configuration ℝ) (b : Block ℝ) : Seg ℝ where
  cap := b.maxEntrySpeed
  reach := fun v => maxAllowableSpeed (-cfg.acceleration) v b.millimeters

theorem reach_eq (b : Block ℝ) (v : ℝ) :
    (seg cfg b).reach v =
      Real.sqrt (v ^ 2 + 2 * (3600 * cfg.acceleration) * b.millimeters) := by
  change Real.sqrt (allowableSquare _ _ _) = _
  congr 1
  unfold allowableSquare
  ring

theorem reach_nonneg (b : Block ℝ) (v : ℝ) : 0 ≤ (seg cfg b).reach v :=
  Real.sqrt_nonneg _

/-- A block of non-negative length only gains speed, and monotonically. -/
theorem seg_lawful (hcfg : Positive cfg) {b : Block ℝ}
    (hmm : 0 ≤ b.millimeters) : (seg cfg b).Lawful 0 := by
  have hgain : 0 ≤ 2 * (3600 * cfg.acceleration) * b.millimeters := by
    have := hcfg.acceleration
    positivity
  refine ⟨?_, ?_, ?_⟩
  · intro v hv w _ hvw
    rw [reach_eq, reach_eq]
    apply Real.sqrt_le_sqrt
    have hv0 : 0 ≤ v := hv
    have hsq : v ^ 2 ≤ w ^ 2 := by gcongr
    linarith
  · intro v
    rw [reach_eq, reach_eq]
    apply Real.sqrt_le_sqrt
    have hsq := sq_nonneg v
    linarith
  · intro v
    rw [reach_eq]
    apply Real.le_sqrt_of_sq_le
    linarith

/-- Reaching a speed and the energy balance say the same. -/
theorem le_reach_iff (hcfg : Positive cfg) {b : Block ℝ}
    (hmm : 0 ≤ b.millimeters) {v w : ℝ} (hw : 0 ≤ w) :
    w ≤ (seg cfg b).reach v ↔
      w ^ 2 ≤ v ^ 2 + 2 * (3600 * cfg.acceleration) * b.millimeters := by
  have hacc := hcfg.acceleration
  rw [reach_eq]
  exact Real.le_sqrt hw (by positivity)

/-- What holds of a pending move and is settled when it is queued: it depends
on the fixed part of the block only.  The nominal speed may have any sign, as
it has when the duration of the move does not fit its type. -/
structure Sound (cfg : Configuration ℝ) (b : Block ℝ) : Prop where
  millimeters_pos : 0 < b.millimeters
  max_le : b.maxEntrySpeed ≤ max 0 b.nominalSpeed
  long : b.nominalLengthFlag = true → b.nominalSpeed ≤ (seg cfg b).reach 0

theorem Sound.lawful (hcfg : Positive cfg) {b : Block ℝ} (h : Sound cfg b) :
    (seg cfg b).Lawful 0 :=
  seg_lawful hcfg h.millimeters_pos.le

theorem Sound.of_fixed {b c : Block ℝ} (h : Sound cfg b)
    (hf : c.fixed = b.fixed) : Sound cfg c := by
  have hb : Sound cfg b.fixed := ⟨h.millimeters_pos, h.max_le, h.long⟩
  rw [← hf] at hb
  exact ⟨hb.millimeters_pos, hb.max_le, hb.long⟩

theorem seg_of_fixed {b c : Block ℝ} (hf : c.fixed = b.fixed) :
    seg cfg c = seg cfg b := by
  change seg cfg c.fixed = seg cfg b.fixed
  rw [hf]

theorem nominal_of_fixed {b c : Block ℝ} (hf : c.fixed = b.fixed) :
    c.nominalSpeed = b.nominalSpeed := by
  change c.fixed.nominalSpeed = b.fixed.nominalSpeed
  rw [hf]

theorem max_of_fixed {b c : Block ℝ} (hf : c.fixed = b.fixed) :
    c.maxEntrySpeed = b.maxEntrySpeed := by
  change c.fixed.maxEntrySpeed = b.fixed.maxEntrySpeed
  rw [hf]

/-- A flagged block reaches its nominal speed from any speed. -/
theorem Sound.nominal_le_reach (hcfg : Positive cfg) {b : Block ℝ}
    (h : Sound cfg b) (hflag : b.nominalLengthFlag = true) (v : ℝ) :
    max 0 b.nominalSpeed ≤ (seg cfg b).reach v :=
  sup_le (reach_nonneg b v) ((h.long hflag).trans ((h.lawful hcfg).least v))

theorem capped_iff {bs : List (Block ℝ)} :
    Capped (bs.map (seg cfg)) (bs.map (·.entrySpeed)) ↔
      ∀ b ∈ bs, b.entrySpeed ≤ b.maxEntrySpeed := by
  rw [Capped, List.forall₂_map_left_iff, List.forall₂_map_right_iff,
    List.forall₂_same]
  rfl

/-- An entry speed is not negative, unless it is a junction limit that is: then
no pass can move it. -/
def Steady (b : Block ℝ) : Prop :=
  0 ≤ b.entrySpeed ∨ b.entrySpeed = b.maxEntrySpeed

theorem low_iff {bs : List (Block ℝ)} :
    Low 0 (bs.map (seg cfg)) (bs.map (·.entrySpeed)) ↔ ∀ b ∈ bs, Steady b := by
  rw [Low, List.forall₂_map_left_iff, List.forall₂_map_right_iff,
    List.forall₂_same]
  rfl

/-! ## The reverse pass -/

/-- The reverse kernel computes the backward step, provided a block already at
its maximum can brake from there. -/
theorem reverseJunction_entry (hcfg : Positive cfg) {b n : Block ℝ}
    (hb : Sound cfg b)
    (hmax : b.entrySpeed = b.maxEntrySpeed →
      b.maxEntrySpeed ≤ (seg cfg b).reach n.entrySpeed) :
    (reverseJunction cfg b n).entrySpeed =
      min b.maxEntrySpeed ((seg cfg b).reach n.entrySpeed) := by
  have hle := (hb.lawful hcfg).le_reach
  unfold reverseJunction
  split
  · dsimp only
    split
    · rfl
    · next hskip =>
        -- skipped: flagged, or the successor is at least as fast
        symm
        apply min_eq_left
        by_cases hflag : b.nominalLengthFlag = true
        · exact hb.max_le.trans (hb.nominal_le_reach hcfg hflag _)
        · have hnext : b.maxEntrySpeed ≤ n.entrySpeed := by
            simpa [hflag] using hskip
          exact hnext.trans (hle _)
  · next heq =>
      rw [not_not] at heq
      rw [heq, min_eq_left (hmax heq)]

/-- The reverse pass computes the backward pass: the skipped blocks are those
whose speed could not have changed. -/
theorem scanRight_entries (hcfg : Positive cfg) (bs : List (Block ℝ)) :
    (∀ b ∈ bs, Sound cfg b) → (∀ b ∈ bs, Steady b) →
    (∀ b ∈ bs, b.entrySpeed ≤ b.maxEntrySpeed) →
    Stoppable 0 (bs.map (seg cfg)) (bs.map (·.entrySpeed)) →
    (∀ b, bs.getLast? = some b →
      b.entrySpeed = min b.maxEntrySpeed ((seg cfg b).reach 0)) →
    (Ring.scanRight (reverseJunction cfg) bs).map (·.entrySpeed) =
      backward 0 (bs.map (seg cfg)) := by
  induction bs with
  | nil => intros; rfl
  | cons b bs ih =>
      intro hsound hsteady hcap hstop hlast
      cases bs with
      | nil => simpa [Ring.scanRight, backward, seg] using hlast b rfl
      | cons n bs =>
          have htail := ih (fun c hc => hsound c (by simp [hc]))
            (fun c hc => hsteady c (by simp [hc]))
            (fun c hc => hcap c (by simp [hc])) hstop.2
            (fun c hc => hlast c (by simpa using hc))
          obtain ⟨n', bs', hscan, hfull⟩ :=
            Ring.scanRight_cons_cons (reverseJunction cfg) b n bs
          have hlow : Low 0 ((n :: bs).map (seg cfg))
              ((n :: bs).map (·.entrySpeed)) :=
            low_iff.2 fun c hc => hsteady c (List.mem_cons_of_mem _ hc)
          have hdom : List.Forall₂ (· ≤ ·) ((n :: bs).map (·.entrySpeed))
              (backward 0 ((n :: bs).map (seg cfg))) := by
            refine le_backward ?_ hlow
              (capped_iff.2 fun c hc => hcap c (List.mem_cons_of_mem _ hc))
              hstop.2
            simp only [List.forall_mem_map]
            exact fun c hc => (hsound c (by simp [hc])).lawful hcfg
          have hb := hsound b (by simp)
          have hhead := (hb.lawful hcfg).reach_head_le hlow
            (backward_capped 0 _) hdom
          rw [hscan, List.map_cons] at htail
          rw [← htail] at hhead
          rw [hfull, List.map_cons, List.map_cons,
            reverseJunction_entry hcfg hb ?_]
          · rw [List.map_cons, backward, ← htail]
            rfl
          · intro heq
            rw [← heq]
            exact hstop.1.trans hhead

/-! ## The forward pass -/

/-- The forward kernel computes the forward step. -/
theorem forwardJunction_entry (hcfg : Positive cfg) {p c : Block ℝ}
    (hp : Sound cfg p)
    (hlong : p.nominalLengthFlag = true →
      c.entrySpeed ≤ (seg cfg p).reach p.entrySpeed) :
    (forwardJunction cfg p c).entrySpeed =
      min c.entrySpeed ((seg cfg p).reach p.entrySpeed) := by
  have hle := (hp.lawful hcfg).le_reach
  unfold forwardJunction
  split
  · dsimp only
    split
    · rfl
    · next hsame => exact not_not.1 hsame
  · next hskip =>
      symm
      apply min_eq_left
      by_cases hflag : p.nominalLengthFlag = true
      · exact hlong hflag
      · have hprev : c.entrySpeed ≤ p.entrySpeed := by
          simpa [hflag] using hskip
        exact hprev.trans (hle _)

/-- No block may be entered faster than its predecessor can nominally go. -/
def Joined (b n : Block ℝ) : Prop := n.maxEntrySpeed ≤ max 0 b.nominalSpeed

theorem scanLeft_entries (hcfg : Positive cfg) (cs : List (Block ℝ)) :
    ∀ p : Block ℝ, Sound cfg p → (∀ c ∈ cs, Sound cfg c) →
    (p :: cs).IsChain Joined →
    (∀ c ∈ cs, c.entrySpeed ≤ c.maxEntrySpeed) →
    (Ring.scanLeft (forwardJunction cfg) p cs).map (·.entrySpeed) =
      forward p.entrySpeed ((p :: cs).map (seg cfg))
        (cs.map (·.entrySpeed)) := by
  induction cs with
  | nil => intros; rfl
  | cons c cs ih =>
      intro p hp hcs hchain hcap
      obtain ⟨hjoin, hrest⟩ := List.isChain_cons_cons.1 hchain
      have hfix := forwardJunction_fixed cfg p c
      have hentry : (forwardJunction cfg p c).entrySpeed =
          min c.entrySpeed ((seg cfg p).reach p.entrySpeed) := by
        apply forwardJunction_entry hcfg hp
        intro hflag
        calc c.entrySpeed ≤ c.maxEntrySpeed := hcap c (by simp)
          _ ≤ max 0 p.nominalSpeed := hjoin
          _ ≤ _ := hp.nominal_le_reach hcfg hflag _
      have hchain' : (forwardJunction cfg p c :: cs).IsChain Joined := by
        cases cs with
        | nil => exact List.isChain_singleton _
        | cons d ds =>
            obtain ⟨hcd, hds⟩ := List.isChain_cons_cons.1 hrest
            refine List.isChain_cons_cons.2 ⟨?_, hds⟩
            rw [Joined, nominal_of_fixed hfix]
            exact hcd
      have htail := ih (forwardJunction cfg p c)
        ((hcs c (by simp)).of_fixed hfix) (fun d hd => hcs d (by simp [hd]))
        hchain' (fun d hd => hcap d (by simp [hd]))
      rw [List.map_cons, seg_of_fixed hfix, hentry] at htail
      rw [Ring.scanLeft, List.map_cons, htail, hentry]
      rfl

/-! ## Trapezoids -/

/-- The fields `calculate_trapezoid_for_block` computes. -/
def Block.trapezoid (b : Block ℝ) : Int × Int × Int × Int :=
  (b.initialRate, b.finalRate, b.accelerateUntil, b.decelerateAfter)

/-- The trapezoid of `b` is the one for its entry speed and this exit speed. -/
def Fits (b : Block ℝ) (exitSpeed : ℝ) : Prop :=
  b.trapezoid = (calculateTrapezoidForBlock b (b.entrySpeed / b.nominalSpeed)
    (exitSpeed / b.nominalSpeed)).trapezoid

private theorem calculateTrapezoid_trapezoid (b : Block ℝ) (x y : ℝ) :
    (calculateTrapezoidForBlock b x y).trapezoid =
      (calculateTrapezoidForBlock b.fixed x y).trapezoid := by
  unfold calculateTrapezoidForBlock Block.trapezoid
  dsimp only [Block.fixed]
  split <;> rfl

/-- The trapezoid is a function of the fixed part and the two speeds. -/
theorem calculateTrapezoid_of_fixed {b c : Block ℝ} (hf : c.fixed = b.fixed)
    (x y : ℝ) :
    (calculateTrapezoidForBlock c x y).trapezoid =
      (calculateTrapezoidForBlock b x y).trapezoid := by
  rw [calculateTrapezoid_trapezoid c, calculateTrapezoid_trapezoid b, hf]

theorem calculateTrapezoid_entrySpeed (b : Block ℝ) (x y : ℝ) :
    (calculateTrapezoidForBlock b x y).entrySpeed = b.entrySpeed := by
  unfold calculateTrapezoidForBlock
  dsimp only
  split <;> rfl

theorem retrapezoid_entrySpeed (b : Block ℝ) (exitSpeed : ℝ) :
    (retrapezoid b exitSpeed).entrySpeed = b.entrySpeed :=
  calculateTrapezoid_entrySpeed b _ _

theorem trapezoidJunction_entrySpeed (b n : Block ℝ) :
    (trapezoidJunction b n).entrySpeed = b.entrySpeed := by
  unfold trapezoidJunction
  split
  · exact retrapezoid_entrySpeed b _
  · rfl

theorem retrapezoid_fits (b : Block ℝ) (exitSpeed : ℝ) :
    Fits (retrapezoid b exitSpeed) exitSpeed := by
  have hf := retrapezoid_fixed b exitSpeed
  rw [Fits, retrapezoid_entrySpeed, nominal_of_fixed hf,
    calculateTrapezoid_of_fixed hf]
  rfl

/-- Every pending trapezoid is the current one: the exit speed is the entry
speed of the successor, or the minimum for the newest block. -/
def Fresh : List (Block ℝ) → Prop
  | [] => True
  | [b] => Fits b minimumPlannerSpeed
  | b :: n :: bs => Fits b n.entrySpeed ∧ Fresh (n :: bs)

/-- A trapezoid with no raised flag beside it is the current one. -/
def Consistent : List (Block ℝ) → Prop
  | b :: n :: bs =>
      (b.recalculateFlag = false → n.recalculateFlag = false →
        Fits b n.entrySpeed) ∧ Consistent (n :: bs)
  | _ => True

/-- How a speed pass may change a block: trapezoids stay, and an entry speed
changes only under a raised flag. -/
structure Kept (b c : Block ℝ) : Prop where
  fixed : c.fixed = b.fixed
  trapezoid : c.trapezoid = b.trapezoid
  quiet : c.recalculateFlag = false →
    c.entrySpeed = b.entrySpeed ∧ b.recalculateFlag = false

theorem Kept.refl (b : Block ℝ) : Kept b b := ⟨rfl, rfl, fun h => ⟨rfl, h⟩⟩

theorem reverseJunction_kept (b n : Block ℝ) :
    Kept b (reverseJunction cfg b n) := by
  refine ⟨reverseJunction_fixed cfg b n, ?_, ?_⟩
  · unfold reverseJunction
    split <;> rfl
  · unfold reverseJunction
    split
    · intro h; exact absurd h (by simp)
    · exact fun h => ⟨rfl, h⟩

theorem forwardJunction_kept (p b : Block ℝ) :
    Kept b (forwardJunction cfg p b) := by
  refine ⟨forwardJunction_fixed cfg p b, ?_, ?_⟩
  · unfold forwardJunction
    split
    · dsimp only
      split <;> rfl
    · rfl
  · unfold forwardJunction
    split
    · dsimp only
      split
      · intro h; exact absurd h (by simp)
      · exact fun h => ⟨rfl, h⟩
    · exact fun h => ⟨rfl, h⟩

/-- The two speed passes keep what is consistent. -/
theorem Kept.consistent {bs cs : List (Block ℝ)}
    (h : List.Forall₂ Kept bs cs) (hbs : Consistent bs) : Consistent cs := by
  induction h with
  | nil => trivial
  | @cons b c bs cs hbc hrest ih =>
      cases hrest with
      | nil => trivial
      | @cons n m ns ms hnm hrest =>
          obtain ⟨hfit, htail⟩ := hbs
          refine ⟨?_, ih htail⟩
          intro hc hm
          obtain ⟨hce, hb⟩ := hbc.quiet hc
          obtain ⟨hme, hn⟩ := hnm.quiet hm
          have hold := hfit hb hn
          rw [Fits, hbc.trapezoid, calculateTrapezoid_of_fixed hbc.fixed, hce,
            hme, nominal_of_fixed hbc.fixed]
          exact hold

/-- A consistent queue has only current trapezoids after the last pass, and no
flag stays raised. -/
theorem trapezoidQueue_fresh (bs : List (Block ℝ)) (h : Consistent bs) :
    Fresh (trapezoidQueue bs) ∧
      ∀ b ∈ trapezoidQueue bs, b.recalculateFlag = false := by
  induction bs with
  | nil => exact ⟨trivial, by simp [trapezoidQueue, Ring.pairUp]⟩
  | cons b bs ih =>
      cases bs with
      | nil =>
          refine ⟨retrapezoid_fits b _, ?_⟩
          simp [trapezoidQueue, Ring.pairUp, retrapezoid]
      | cons n bs =>
          obtain ⟨hfit, htail⟩ := h
          obtain ⟨hfresh, hflags⟩ := ih htail
          have hq : trapezoidQueue (b :: n :: bs) =
              trapezoidJunction b n :: trapezoidQueue (n :: bs) := rfl
          -- the successor keeps its entry speed in this pass
          have hnext : ∃ n' ns', trapezoidQueue (n :: bs) = n' :: ns' ∧
              n'.entrySpeed = n.entrySpeed := by
            cases bs with
            | nil => exact ⟨_, _, rfl, retrapezoid_entrySpeed n _⟩
            | cons m ms =>
                exact ⟨_, _, rfl, trapezoidJunction_entrySpeed n m⟩
          obtain ⟨n', ns', hns, hn'⟩ := hnext
          have hjunction : Fits (trapezoidJunction b n) n.entrySpeed ∧
              (trapezoidJunction b n).recalculateFlag = false := by
            unfold trapezoidJunction
            split
            · exact ⟨retrapezoid_fits b _, rfl⟩
            · next hquiet =>
                rw [Bool.not_eq_true, Bool.or_eq_false_iff] at hquiet
                exact ⟨hfit hquiet.1 hquiet.2, hquiet.1⟩
          rw [hns] at hfresh hflags
          rw [hq, hns]
          refine ⟨⟨by rw [hn']; exact hjunction.1, hfresh⟩, ?_⟩
          intro c hc
          rcases List.mem_cons.1 hc with rfl | hc
          · exact hjunction.2
          · exact hflags c hc

/-! ## The step lemma -/

section Fixed

variable {bs cs : List (Block ℝ)}

theorem sound_of_fixed (hf : cs.map Block.fixed = bs.map Block.fixed)
    (h : ∀ b ∈ bs, Sound cfg b) : ∀ c ∈ cs, Sound cfg c := by
  intro c hc
  have hmem : c.fixed ∈ bs.map Block.fixed := hf ▸ List.mem_map_of_mem hc
  obtain ⟨b, hb, hbc⟩ := List.mem_map.1 hmem
  exact (h b hb).of_fixed hbc.symm

theorem segs_of_fixed (hf : cs.map Block.fixed = bs.map Block.fixed) :
    cs.map (seg cfg) = bs.map (seg cfg) := by
  have hcomp : seg cfg ∘ Block.fixed = seg cfg := rfl
  rw [← hcomp, ← List.map_map, hf, List.map_map]

theorem joined_of_fixed (hf : cs.map Block.fixed = bs.map Block.fixed)
    (h : bs.IsChain Joined) : cs.IsChain Joined := by
  have hmap : ∀ l : List (Block ℝ),
      (l.map Block.fixed).IsChain Joined ↔ l.IsChain Joined := by
    intro l
    rw [List.isChain_map]
    rfl
  rw [← hmap, hf, hmap]
  exact h

end Fixed

/-- What holds of the pending moves when a new one has just been appended:
everything `planner_recalculate` relies on. -/
structure Extended (cfg : Configuration ℝ) (bs : List (Block ℝ)) : Prop where
  sound : ∀ b ∈ bs, Sound cfg b
  joined : bs.IsChain Joined
  steady : ∀ b ∈ bs, Steady b
  capped : ∀ b ∈ bs, b.entrySpeed ≤ b.maxEntrySpeed
  stoppable : Stoppable 0 (bs.map (seg cfg)) (bs.map (·.entrySpeed))
  last : ∀ b, bs.getLast? = some b →
    b.entrySpeed = min b.maxEntrySpeed ((seg cfg b).reach 0)
  consistent : Consistent bs

/-- What holds of the pending moves between two requests. -/
structure PlanInv (cfg : Configuration ℝ) (bs : List (Block ℝ)) : Prop where
  sound : ∀ b ∈ bs, Sound cfg b
  joined : bs.IsChain Joined
  steady : ∀ b ∈ bs, Steady b
  capped : ∀ b ∈ bs, b.entrySpeed ≤ b.maxEntrySpeed
  stoppable : Stoppable 0 (bs.map (seg cfg)) (bs.map (·.entrySpeed))
  startable : Startable (bs.map (seg cfg)) (bs.map (·.entrySpeed))
  fresh : Fresh bs

theorem PlanInv.nil : PlanInv cfg [] :=
  ⟨by simp, List.isChain_nil, by simp, by simp, trivial, trivial, trivial⟩

/-- The oldest block may leave at any time. -/
theorem PlanInv.tail {bs : List (Block ℝ)} (h : PlanInv cfg bs) :
    PlanInv cfg bs.tail := by
  cases bs with
  | nil => exact h
  | cons b bs =>
      have hstart : Startable (bs.map (seg cfg)) (bs.map (·.entrySpeed)) := by
        cases bs with
        | nil => trivial
        | cons n bs => exact h.startable.2
      have hfresh : Fresh bs := by
        cases bs with
        | nil => trivial
        | cons n bs => exact h.fresh.2
      exact ⟨fun c hc => h.sound c (List.mem_cons_of_mem _ hc), h.joined.tail,
        fun c hc => h.steady c (List.mem_cons_of_mem _ hc),
        fun c hc => h.capped c (List.mem_cons_of_mem _ hc), h.stoppable.2,
        hstart, hfresh⟩

/-- A current plan with a flagged block behind it is consistent. -/
theorem Fresh.consistent_append {bs : List (Block ℝ)} {nb : Block ℝ}
    (h : Fresh bs) (hflag : nb.recalculateFlag = true) :
    Consistent (bs ++ [nb]) := by
  induction bs with
  | nil => trivial
  | cons b bs ih =>
      cases bs with
      | nil => exact ⟨fun _ hn => by simp [hflag] at hn, trivial⟩
      | cons n bs => exact ⟨fun _ _ => h.1, ih h.2⟩

/-- A new block extends the plan. -/
theorem PlanInv.extend (hcfg : Positive cfg) {bs : List (Block ℝ)}
    {nb : Block ℝ} (h : PlanInv cfg bs) (hnb : Sound cfg nb)
    (hentry : nb.entrySpeed = min nb.maxEntrySpeed ((seg cfg nb).reach 0))
    (hflag : nb.recalculateFlag = true)
    (hjoin : ∀ b, bs.getLast? = some b → Joined b nb) :
    Extended cfg (bs ++ [nb]) := by
  have hsteady : Steady nb := by
    rw [Steady, hentry]
    rcases le_total 0 nb.maxEntrySpeed with hmax | hmax
    · exact .inl (le_min hmax (reach_nonneg nb 0))
    · exact .inr (min_eq_left (hmax.trans (reach_nonneg nb 0)))
  have hmem : ∀ {p : Block ℝ → Prop}, (∀ b ∈ bs, p b) → p nb →
      ∀ b ∈ bs ++ [nb], p b := by
    intro p hbs hp b hb
    rcases List.mem_append.1 hb with hb | hb
    · exact hbs b hb
    · rw [List.mem_singleton.1 hb]; exact hp
  refine
    { sound := hmem h.sound hnb
      joined := ?_
      steady := hmem h.steady hsteady
      capped := hmem h.capped (by rw [hentry]; exact min_le_left _ _)
      stoppable := ?_
      last := ?_
      consistent := h.fresh.consistent_append hflag }
  · rw [List.isChain_append]
    refine ⟨h.joined, List.isChain_singleton _, ?_⟩
    intro b hb c hc
    rw [show c = nb by simpa using hc.symm]
    exact hjoin b hb
  · rw [List.map_append, List.map_append]
    have hstop : nb.entrySpeed ≤ (seg cfg nb).reach 0 := by
      rw [hentry]
      exact min_le_right _ _
    refine h.stoppable.append ?_ hstop
    simp only [List.forall_mem_map]
    exact fun b hb => (h.sound b hb).lawful hcfg
  · intro b hb
    rw [List.getLast?_concat, Option.some.injEq] at hb
    rw [← hb]
    exact hentry

/-- The two speed passes keep a queue consistent. -/
theorem speedPasses_consistent {bs : List (Block ℝ)} (h : Consistent bs) :
    Consistent (forwardQueue cfg (reverseQueue cfg bs)) := by
  cases bs with
  | nil => trivial
  | cons b bs =>
      have hrev := Ring.scanRight_forall₂ Kept.refl
        (@reverseJunction_kept cfg) bs
      have hfwd := Ring.scanLeft_forall₂ (@forwardJunction_kept cfg) b
        (Ring.scanRight (reverseJunction cfg) bs)
      exact Kept.consistent (.cons (Kept.refl b) hfwd)
        (Kept.consistent (.cons (Kept.refl b) hrev) h)

theorem recalculateQueue_entries_eq (bs : List (Block ℝ)) :
    (recalculateQueue cfg bs).map (·.entrySpeed) =
      (forwardQueue cfg (reverseQueue cfg bs)).map (·.entrySpeed) :=
  Ring.pairUp_map _ trapezoidJunction_entrySpeed
    (fun b => retrapezoid_entrySpeed b _) _

/-- After the reverse pass the entry speeds are those of the backward pass, the
oldest block apart. -/
theorem Extended.reverse_entries (hcfg : Positive cfg) {b : Block ℝ}
    {bs : List (Block ℝ)} (h : Extended cfg (b :: bs)) :
    (Ring.scanRight (reverseJunction cfg) bs).map (·.entrySpeed) =
      backward 0 (bs.map (seg cfg)) := by
  apply scanRight_entries hcfg bs
  · exact fun c hc => h.sound c (by simp [hc])
  · exact fun c hc => h.steady c (by simp [hc])
  · exact fun c hc => h.capped c (by simp [hc])
  · exact h.stoppable.2
  · intro c hc
    apply h.last c
    rw [List.getLast?_cons, hc]
    rfl

/-- The entry speeds computed by the shortcuts are those of the plain two-pass
algorithm, with the oldest block left alone. -/
theorem Extended.entries (hcfg : Positive cfg) {b : Block ℝ}
    {bs : List (Block ℝ)} (h : Extended cfg (b :: bs)) :
    (recalculateQueue cfg (b :: bs)).map (·.entrySpeed) =
      twoPass 0 b.entrySpeed ((b :: bs).map (seg cfg)) := by
  have hrev := h.reverse_entries hcfg
  have hfix : (b :: Ring.scanRight (reverseJunction cfg) bs).map Block.fixed =
      (b :: bs).map Block.fixed := by
    rw [List.map_cons,
      Ring.scanRight_map Block.fixed (reverseJunction_fixed cfg) bs,
      List.map_cons]
  rw [recalculateQueue_entries_eq, reverseQueue, forwardQueue, List.map_cons]
  generalize Ring.scanRight (reverseJunction cfg) bs = rs at hrev hfix ⊢
  have hsound := sound_of_fixed hfix h.sound
  have hsegs := @segs_of_fixed cfg _ _ hfix
  have hcap : ∀ c ∈ rs, c.entrySpeed ≤ c.maxEntrySpeed := by
    rw [← @capped_iff cfg, hrev, (List.cons.inj hsegs).2]
    exact backward_capped _ _
  rw [scanLeft_entries hcfg rs b (h.sound b (by simp))
    (fun c hc => hsound c (by simp [hc])) (joined_of_fixed hfix h.joined)
    hcap, hrev, hsegs]
  rfl

/-- Replanning an extended queue gives a plan. -/
theorem Extended.plan (hcfg : Positive cfg) {bs : List (Block ℝ)}
    (h : Extended cfg bs) : PlanInv cfg (recalculateQueue cfg bs) := by
  cases bs with
  | nil => exact PlanInv.nil
  | cons b bs =>
      have hfix := recalculateQueue_fixed cfg (b :: bs)
      have hentries := h.entries hcfg
      have hfresh := trapezoidQueue_fresh _
        (@speedPasses_consistent cfg _ h.consistent)
      change Fresh (recalculateQueue cfg (b :: bs)) ∧ _ at hfresh
      generalize recalculateQueue cfg (b :: bs) = q at hfix hentries hfresh ⊢
      have hsegs := @segs_of_fixed cfg _ _ hfix
      have hlaw : ∀ s ∈ (b :: bs).map (seg cfg), s.Lawful 0 := by
        simp only [List.forall_mem_map]
        exact fun c hc => (h.sound c hc).lawful hcfg
      refine
        { sound := sound_of_fixed hfix h.sound
          joined := joined_of_fixed hfix h.joined
          steady := ?_
          capped := ?_
          stoppable := ?_
          startable := ?_
          fresh := hfresh.1 }
      · rw [← @low_iff cfg, hentries, hsegs]
        exact twoPass_low hlaw (h.steady b (by simp))
      · rw [← @capped_iff cfg, hentries, hsegs]
        exact twoPass_capped (h.capped b (by simp))
      · rw [hentries, hsegs]
        refine twoPass_stoppable hlaw ?_ ?_ h.stoppable
        · exact low_iff.2 (fun c hc => h.steady c (by simp [hc]))
        · exact capped_iff.2 (fun c hc => h.capped c (by simp [hc]))
      · rw [hentries, hsegs]
        exact twoPass_startable _ _ _

end R2C2Firmware.Ports.MotionPlanner
