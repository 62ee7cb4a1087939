import R2C2Firmware.Ports.MotionPlannerFeasible

/-!
# The fastest feasible plan

The plan is not only feasible.  In every state of a run no feasible plan of the
same blocks that starts no faster enters any block faster, and queueing a move
never slows down a block that is already pending.

`Planned` is the invariant: the entry speeds are those of the two-pass plan of
the pending blocks.  A discard keeps it, since the plan of the rest is the rest
of the plan.

## Main results

* `fastest_plan` — the pending plan dominates every feasible one.
* `line_keeps_speed` — no pending block is slowed down by a new move.
-/

namespace R2C2Firmware.Ports.MotionPlanner

open R2C2Firmware.Verified.Number
open R2C2Firmware.Verified.Lookahead
open R2C2Firmware.Ports.Config

variable {cfg : Configuration ℝ} {pAction : ActionRequest ℝ} {pl : Planner ℝ}
  {bs cs : List (Block ℝ)}

/-! ## The invariant -/

/-- The entry speeds are those of the two-pass plan. -/
def Planned (cfg : Configuration ℝ) (bs : List (Block ℝ)) : Prop :=
  ∀ b cs, bs = b :: cs →
    bs.map (·.entrySpeed) = twoPass 0 b.entrySpeed (bs.map (seg cfg))

theorem Planned.tail (h : Planned cfg bs) : Planned cfg bs.tail := by
  cases bs with
  | nil => exact h
  | cons b bs =>
      intro n cs hbs
      change bs = n :: cs at hbs
      subst hbs
      exact twoPass_tail (h b (n :: cs) rfl).symm

/-- The first speed is not replanned. -/
theorem recalculateQueue_planned (hcfg : Positive cfg) (h : Extended cfg bs) :
    Planned cfg (recalculateQueue cfg bs) := by
  intro b cs hrec
  have hsegs : (recalculateQueue cfg bs).map (seg cfg) = bs.map (seg cfg) :=
    segs_of_fixed (recalculateQueue_fixed cfg bs)
  cases bs with
  | nil =>
      have hlen := congrArg List.length (recalculateQueue_fixed cfg [])
      rw [hrec] at hlen
      exact absurd hlen (by simp)
  | cons c bs =>
      have hentries := h.entries hcfg
      have hfirst : b.entrySpeed = c.entrySpeed := by
        rw [hrec] at hentries
        exact (List.cons.inj hentries).1
      rw [hsegs, hentries, hfirst]

theorem MoveRun.planned {request : ActionRequest ℝ → Planner ℝ → Prop}
    (hcfg : Positive cfg) (h : MoveRun cfg request pl) :
    Planned cfg pl.queue := by
  induction h with
  | init pl =>
      rw [planInit_queue]
      intro b cs hbs
      exact absurd hbs (by simp)
  | @line pl pAction hrun hroom hreq ih =>
      have hinv := hrun.inv hcfg
      by_cases hz : zeroLength cfg pAction pl = true
      · rw [queue_planBufferLine cfg pAction hinv.wf hroom, if_pos hz]
        exact ih
      · rw [Bool.not_eq_true] at hz
        rw [queue_line hinv.wf hroom hinv.enabled hz]
        exact recalculateQueue_planned hcfg (hinv.extended hcfg hz)
  | discard hrun ih =>
      rw [queue_discard (hrun.inv hcfg).wf]
      exact ih.tail
  | @setPosition pl newPosition hrun hempty _ =>
      have hq : pl.queue = [] := (hrun.inv hcfg).wf.queue_eq_nil.2 (by
        simpa [planQueueEmpty] using hempty)
      intro b cs hbs
      change pl.queue = b :: cs at hbs
      exact absurd hbs (by rw [hq]; simp)

/-! ## Feasible plans as profiles -/

theorem Feasible.tail {b : Block ℝ} (h : Feasible cfg (b :: bs)) :
    Feasible cfg bs := by
  refine ⟨fun c hc => h.entry c (List.mem_cons_of_mem _ hc), h.junctions.tail,
    fun c hc => h.stop c ?_⟩
  cases bs with
  | nil => exact absurd hc (by simp)
  | cons n bs => simpa using hc

theorem Feasible.stoppable (hcfg : Positive cfg) (hsound : ∀ b ∈ bs, Sound cfg b)
    (h : Feasible cfg bs) :
    Stoppable 0 (bs.map (seg cfg)) (bs.map (·.entrySpeed)) := by
  induction bs with
  | nil => trivial
  | cons b bs ih =>
      have hmm := (hsound b (by simp)).millimeters_pos.le
      have hlow := (h.entry b (by simp)).1
      refine ⟨(le_reach_iff hcfg hmm hlow).2 ?_,
        ih (fun c hc => hsound c (by simp [hc])) h.tail⟩
      cases bs with
      | nil => simpa using h.stop b rfl
      | cons n bs => exact (List.isChain_cons_cons.1 h.junctions).1.brake

theorem Feasible.startable (hcfg : Positive cfg) (hsound : ∀ b ∈ bs, Sound cfg b)
    (h : Feasible cfg bs) :
    Startable (bs.map (seg cfg)) (bs.map (·.entrySpeed)) := by
  induction bs with
  | nil => trivial
  | cons b bs ih =>
      cases bs with
      | nil => trivial
      | cons n bs =>
          have hmm := (hsound b (by simp)).millimeters_pos.le
          have hlow := (h.entry n (by simp)).1
          exact ⟨(le_reach_iff hcfg hmm hlow).2
            (List.isChain_cons_cons.1 h.junctions).1.accelerate,
            ih (fun c hc => hsound c (by simp [hc])) h.tail⟩

/-! ## The plan is the fastest -/

/-- A profile of the pending blocks lies below the plan. -/
theorem Planned.le {b : Block ℝ} (hcfg : Positive cfg)
    (hsound : ∀ c ∈ b :: bs, Sound cfg c) (h : Planned cfg (b :: bs))
    {w : ℝ} {ws : List ℝ} (hlow : ∀ u ∈ w :: ws, 0 ≤ u)
    (hcap : Capped ((b :: bs).map (seg cfg)) (w :: ws))
    (hstop : Stoppable 0 ((b :: bs).map (seg cfg)) (w :: ws))
    (hstart : Startable ((b :: bs).map (seg cfg)) (w :: ws))
    (hfirst : w ≤ b.entrySpeed) :
    List.Forall₂ (· ≤ ·) (w :: ws) ((b :: bs).map (·.entrySpeed)) := by
  rw [h b bs rfl]
  refine le_twoPass ?_ hlow hcap hstop hstart hfirst
  simp only [List.forall_mem_map]
  exact fun c hc => (hsound c hc).lawful hcfg

/-- In every state of a run the pending plan is the fastest one: a feasible
plan of the same blocks that starts no faster is nowhere faster. -/
theorem fastest_plan (hcfg : Positive cfg)
    (hrun : MoveRun cfg (MoveRequest cfg) pl)
    (hfix : bs.map Block.fixed = pl.queue.map Block.fixed)
    (hfeasible : Feasible cfg bs)
    (hfirst : ∀ b ∈ bs.head?, ∀ q ∈ pl.queue.head?,
      b.entrySpeed ≤ q.entrySpeed) :
    List.Forall₂ (fun b q => b.entrySpeed ≤ q.entrySpeed) bs pl.queue := by
  have hplan := (hrun.inv hcfg).plan
  have hplanned := hrun.planned hcfg
  generalize pl.queue = qs at *
  have hsound := sound_of_fixed hfix hplan.sound
  have hsegs := @segs_of_fixed cfg _ _ hfix
  cases qs with
  | nil =>
      have hnil : bs = [] := by simpa using hfix
      rw [hnil]
      exact .nil
  | cons q qs =>
      cases bs with
      | nil => exact absurd hfix (by simp)
      | cons b bs =>
          have hlow : ∀ u ∈ (b :: bs).map (·.entrySpeed), 0 ≤ u := by
            simp only [List.forall_mem_map]
            exact fun c hc => (hfeasible.entry c hc).1
          have hcap : Capped ((b :: bs).map (seg cfg))
              ((b :: bs).map (·.entrySpeed)) :=
            capped_iff.2 fun c hc => (hfeasible.entry c hc).2.1
          have hstop := hfeasible.stoppable hcfg hsound
          have hstart := hfeasible.startable hcfg hsound
          rw [hsegs] at hcap hstop hstart
          have hle := hplanned.le hcfg hplan.sound hlow hcap hstop hstart
            (hfirst b rfl q rfl)
          rwa [← List.map_cons, List.forall₂_map_left_iff,
            List.forall₂_map_right_iff] at hle

/-- A new move slows down no block that is pending already. -/
theorem line_keeps_speed (hcfg : Positive cfg)
    (hrun : MoveRun cfg (MoveRequest cfg) pl)
    (hroom : planQueueFull pl = false) (hreq : MoveRequest cfg pAction pl) :
    List.Forall₂ (fun b b' => b.entrySpeed ≤ b'.entrySpeed) pl.queue
      ((planBufferLine cfg pAction pl).1.queue.take pl.queue.length) := by
  have hinv := hrun.inv hcfg
  by_cases hz : zeroLength cfg pAction pl = true
  · rw [queue_planBufferLine cfg pAction hinv.wf hroom, if_pos hz,
      List.take_length, List.forall₂_same]
    exact fun b _ => le_rfl
  rw [Bool.not_eq_true] at hz
  have hext := hinv.extended hcfg hz
  have hplan := hinv.plan
  have hdriven := hrun.driven hcfg
  have hnew := newBlock_driven hcfg hinv.enabled hreq hz
  rw [queue_line hinv.wf hroom hinv.enabled hz]
  generalize newBlock cfg pAction pl = nb at hext hnew ⊢
  generalize pl.queue = qs at hext hplan hdriven ⊢
  cases qs with
  | nil => exact .nil
  | cons q qs =>
      -- the old plan goes on to be one when the new block is entered at rest
      have hlaw : ∀ s ∈ (q :: qs).map (seg cfg), s.Lawful 0 := by
        simp only [List.forall_mem_map]
        exact fun c hc => (hplan.sound c hc).lawful hcfg
      have hlow : ∀ u ∈ (q :: qs).map (·.entrySpeed), 0 ≤ u := by
        simp only [List.forall_mem_map]
        exact hplan.low hdriven
      have hstop := hplan.stoppable.append hlaw (@reach_nonneg cfg nb 0)
      have hstart := Startable.append (seg cfg nb) hlaw hlow (by simp)
        hplan.startable
      have hcap : Capped ((q :: qs).map (seg cfg) ++ [seg cfg nb])
          ((q :: qs).map (·.entrySpeed) ++ [0]) :=
        List.rel_append (capped_iff.2 hplan.capped)
          (.cons hnew.max_nonneg .nil)
      have hle : List.Forall₂ (· ≤ ·) ((q :: qs).map (·.entrySpeed) ++ [0])
          ((recalculateQueue cfg (q :: qs ++ [nb])).map (·.entrySpeed)) := by
        have hentries : (recalculateQueue cfg (q :: qs ++ [nb])).map
            (·.entrySpeed) = twoPass 0 q.entrySpeed
              ((q :: qs ++ [nb]).map (seg cfg)) := hext.entries hcfg
        rw [hentries]
        refine le_twoPass ?_ ?_ ?_ ?_ ?_ le_rfl
        · simp only [List.forall_mem_map]
          exact fun c hc => (hext.sound c hc).lawful hcfg
        · intro u hu
          rcases List.mem_append.1
            (show u ∈ (q :: qs).map (·.entrySpeed) ++ [0] from hu) with hu | hu
          · exact hlow u hu
          · exact (List.mem_singleton.1 hu).ge
        all_goals rw [List.map_append]
        · exact hcap
        · exact hstop
        · exact hstart
      have htake := List.forall₂_take (q :: qs).length hle
      rw [List.take_left' (by simp), ← List.map_take,
        List.forall₂_map_left_iff, List.forall₂_map_right_iff] at htake
      exact htake

/-! ## Two moves on the default configuration -/

/-- Stopping between any two blocks is feasible as well. -/
theorem Feasible.stopped (hcfg : Positive cfg) (hsound : ∀ b ∈ bs, Sound cfg b)
    (h : Feasible cfg bs) :
    Feasible cfg (bs.map fun b => { b with entrySpeed := 0 }) := by
  have hacc := hcfg.acceleration
  have hgain : ∀ b ∈ bs, (0 : ℝ) ^ 2 ≤
      2 * (3600 * cfg.acceleration) * b.millimeters := by
    intro b hb
    have hmm := (hsound b hb).millimeters_pos
    rw [zero_pow two_ne_zero]
    positivity
  refine ⟨?_, ?_, ?_⟩
  · rw [List.forall_mem_map]
    intro b hb
    obtain ⟨hlow, hcap, hnom⟩ := h.entry b hb
    exact ⟨le_rfl, hlow.trans hcap, hnom⟩
  · rw [List.isChain_map]
    refine h.junctions.imp_of_mem_imp fun b n hb _ hbn => ⟨hbn.max_le, ?_, ?_⟩
    · exact (hgain b hb).trans (le_add_of_nonneg_left (sq_nonneg _))
    · exact (hgain b hb).trans (le_add_of_nonneg_left (sq_nonneg _))
  · intro b hb
    obtain ⟨c, hc, rfl⟩ : ∃ c ∈ bs, { c with entrySpeed := 0 } = b :=
      List.mem_map.1 (List.mem_of_getLast? hb)
    exact hgain c hc

/-- Two moves in one go are no slower than with a stop between them. -/
theorem fastest_plan_secondMove :
    List.Forall₂ (fun b q => b.entrySpeed ≤ q.entrySpeed)
      ((planBufferLine Configuration.default (moveX 160) firstMove).1.queue.map
        fun b => { b with entrySpeed := 0 })
      (planBufferLine Configuration.default (moveX 160) firstMove).1.queue := by
  have hrun := firstMove_run.line (moveX 160) firstMove_room secondMove_request
  have hplan := (hrun.inv default_positive).plan
  have hdriven := hrun.driven default_positive
  refine fastest_plan default_positive hrun ?_
    ((hplan.feasible default_positive hdriven).stopped default_positive
      hplan.sound) ?_
  · rw [List.map_map]
    rfl
  · intro b hb q hq
    rw [List.head?_map, hq] at hb
    obtain rfl : _ = b := Option.some.inj hb
    exact hplan.low hdriven q (List.mem_of_mem_head? hq)

/-- The second move does not slow down the first. -/
theorem line_keeps_speed_secondMove :
    List.Forall₂ (fun b b' => b.entrySpeed ≤ b'.entrySpeed) firstMove.queue
      ((planBufferLine Configuration.default (moveX 160)
        firstMove).1.queue.take firstMove.queue.length) :=
  line_keeps_speed default_positive firstMove_run firstMove_room
    secondMove_request

end R2C2Firmware.Ports.MotionPlanner
