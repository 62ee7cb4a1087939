import R2C2Firmware.Ports.GcodeEffects

/-!
# Millimetres and steps

The planner keeps the current point twice: `startpoint` in millimetres and
`position` in steps.  Moves, dropped moves, homing, `G92` and feed-rate changes
all keep the two in agreement.  `M200` does not: it changes the scale of an axis
and derives no new position.

The agreement survives a whole run exactly when every `M200` processed happens
not to matter, because the current point rounds to the same step under the new
scale.

## Main results

* `positions_agree_iff` — the condition, for every run.
* `positions_disagree` — a run that breaks the agreement.
-/

set_option linter.unusedSectionVars false

namespace R2C2Firmware.Ports.PositionAgreement

open Relation
open R2C2Firmware.Verified.Number
open R2C2Firmware.Verified.BusyWait
open R2C2Firmware.Ports.Config
open R2C2Firmware.Ports.MotionPlanner
open R2C2Firmware.Ports.Stepper
open R2C2Firmware.Ports.Sermsg
open R2C2Firmware.Ports.GcodeParse
open R2C2Firmware.Ports.Mendel
open R2C2Firmware.Ports.GcodeProcess
open R2C2Firmware.Ports.MainLoop

variable {R σ : Type} [Field R] [LinearOrder R] [HasSqrt R] [FloorRing R]
variable {P : Platform σ}

/-- On every axis, the position in steps is the rounded position in
millimetres. -/
def Agrees (fw : Firmware R σ) : Prop :=
  ∀ a, fw.machine.planner.position a =
    int32 (lround (fw.startpoint.coord a * fw.config.stepsPerMm a))

/-- Planner and scale determine the agreement. -/
theorem agrees_of_eq {fw fw' : Firmware R σ} (h : Agrees fw)
    (hposition : fw'.machine.planner.position = fw.machine.planner.position)
    (hstart : fw'.machine.planner.startpoint.coord =
      fw.machine.planner.startpoint.coord)
    (hscale : fw'.machine.config.stepsPerMm = fw.machine.config.stepsPerMm) :
    Agrees fw' := by
  intro a
  show fw'.machine.planner.position a =
    int32 (lround (fw'.machine.planner.startpoint.coord a
      * fw'.machine.config.stepsPerMm a))
  rw [hposition, hstart, hscale]
  exact h a

/-! ## Operations -/

theorem Discards.agrees {fw fw' : Firmware R σ}
    (hd : Discards fw.machine fw'.machine) (h : Agrees fw) : Agrees fw' := by
  obtain ⟨hposition, hstart⟩ := hd.position
  exact agrees_of_eq h hposition (by rw [hstart]) (by rw [hd.1])

/-- A request that is not dropped moves both positions to its target. -/
theorem planBufferLine_position (cfg : Configuration R)
    (request : ActionRequest R) (pl : Planner R) :
    ((planBufferLine cfg request pl).1.position = pl.position ∧
      (planBufferLine cfg request pl).1.startpoint = pl.startpoint) ∨
    ((planBufferLine cfg request pl).1.position =
        targetSteps cfg request.target ∧
      (planBufferLine cfg request pl).1.startpoint = request.target) := by
  cases hzero : zeroLength cfg request pl with
  | true =>
      rw [planBufferLine_fst_of_zeroLength hzero]
      exact .inl ⟨rfl, rfl⟩
  | false =>
      rw [planBufferLine_fst hzero, finishPlan_eq]
      exact .inr ⟨rfl, rfl⟩

theorem planBufferWait_position (cfg : Configuration R)
    (request : ActionRequest R) (pl : Planner R) :
    (planBufferWait cfg request pl).1.position = pl.position ∧
      (planBufferWait cfg request pl).1.startpoint = pl.startpoint := by
  rw [planBufferWait, finishPlan_eq]
  exact ⟨rfl, rfl⟩

/-- A request keeps the two positions in agreement, whether it is queued or dropped. -/
theorem bufferAction_agrees (request : ActionRequest R) {fw : Firmware R σ}
    (ha : Agrees fw) :
    Agrees { fw with machine := bufferAction request fw.machine } := by
  obtain ⟨hconfig, hplanner, -, -⟩ := bufferAction_frame request fw.machine
  have hboth : ((bufferAction request fw.machine).planner.position =
        fw.machine.planner.position ∧
      (bufferAction request fw.machine).planner.startpoint =
        fw.machine.planner.startpoint) ∨
      ((bufferAction request fw.machine).planner.position =
        targetSteps fw.machine.config request.target ∧
      (bufferAction request fw.machine).planner.startpoint =
        request.target) := by
    rw [hplanner, planBufferAction]
    split
    · exact planBufferLine_position _ _ _
    · exact planBufferLine_position _ _ _
    · exact .inl (planBufferWait_position _ _ _)
    · exact .inl (planBufferWait_position _ _ _)
  rcases hboth with ⟨hposition, hstart⟩ | ⟨hposition, hstart⟩
  · exact agrees_of_eq ha hposition (congrArg Target.coord hstart) (by rw [hconfig])
  · intro a
    show (bufferAction request fw.machine).planner.position a =
      int32 (lround
        ((bufferAction request fw.machine).planner.startpoint.coord a
          * (bufferAction request fw.machine).config.stepsPerMm a))
    rw [hposition, hstart, hconfig]
    rfl

theorem quiet_agrees {fw fw' : Firmware R σ} (h : Quiet P fw fw')
    (ha : Agrees fw) : Agrees fw' := by
  cases h with
  | irq i => exact Discards.agrees (serveIrq_discards P i fw) ha
  | frame h => exact agrees_of_eq ha (by rw [h]) (by rw [h]) (by rw [h])
  | settings hf => exact agrees_of_eq ha rfl rfl (hf _)
  | pin h state => exact ha
  | stopTicks => exact ha
  | wait hroom => exact bufferAction_agrees waitRequest ha
  | place ht => exact fun a => rfl

theorem touch_agrees {fw fw' : Firmware R σ} (h : Touch P fw fw')
    (ha : Agrees fw) : Agrees fw' := by
  cases h with
  | quiet h => exact quiet_agrees h ha
  | @move request fw hkind hroom => exact bufferAction_agrees request ha
  | feed t => exact agrees_of_eq ha rfl (funext fun a => by cases a <;> rfl) rfl

theorem background_agrees {fw fw' : Firmware R σ} (h : Background P fw fw')
    (ha : Agrees fw) : Agrees fw' := by
  cases h with
  | irq i => exact Discards.agrees (serveIrq_discards P i fw) ha
  | sdPoll =>
      unfold sdPoll
      split
      · split <;> exact ha
      · exact ha
  | countTimeout =>
      unfold countTimeout
      split <;> exact ha

/-! ## The condition -/

/-- If the line is an `M200` that is processed, the current point rounds to the
same step under the new scale of each axis named. -/
def ScaleKept (s : Session R σ) (data : List UInt8) : Prop :=
  Processes s data → commandOf (parsed s data) = .m .m200 →
    ∀ a, seenAxis (parsed s data) a = true →
      int32 (lround (s.fw.startpoint.coord a
        * (parsed s data).target.coord a)) =
      int32 (lround (s.fw.startpoint.coord a * s.fw.config.stepsPerMm a))

theorem rescales_iff (command : Command) :
    command.rescales = true ↔ command = .m .m200 := by
  constructor
  · intro h
    cases command with
    | m code => cases code <;> simp [Command.rescales] at h ⊢
    | _ => simp [Command.rescales] at h
  · rintro rfl
    rfl

/-- The new scale keeps the agreement exactly when the rounding agrees. -/
theorem rescaled_agrees_iff {c : GcodeCommand R} {fw : Firmware R σ}
    (h : Agrees fw) :
    Agrees (rescaled c fw) ↔ ∀ a, seenAxis c a = true →
      int32 (lround (fw.startpoint.coord a * c.target.coord a)) =
      int32 (lround (fw.startpoint.coord a * fw.config.stepsPerMm a)) := by
  have hnew : ∀ a, (rescaled c fw).config.stepsPerMm a =
      if seenAxis c a then c.target.coord a else fw.config.stepsPerMm a :=
    fun _ => rfl
  constructor
  · intro hr a ha
    have hra : fw.machine.planner.position a = int32 (lround
        (fw.startpoint.coord a * (rescaled c fw).config.stepsPerMm a)) := hr a
    rw [hnew, if_pos ha, h a] at hra
    exact hra.symm
  · intro hround a
    show fw.machine.planner.position a = int32 (lround
      (fw.startpoint.coord a * (rescaled c fw).config.stepsPerMm a))
    rw [hnew, h a]
    split
    · next ha => exact (hround a ha).symm
    · rfl

theorem takeLine_agrees (s : Session R σ) (data : List UInt8)
    (irqs : List Irq) (hok : ScaleKept s data) (h : Agrees s.fw) :
    Agrees (takeLine P s data irqs).2.state := by
  by_cases hc : Processes s data ∧ commandOf (parsed s data) = .m .m200
  · refine keep_of_reflTransGen Agrees
      (takeLine_rescales hc.1 ((rescales_iff _).2 hc.2) irqs)
      (fun _ _ => quiet_agrees) ?_
    exact (rescaled_agrees_iff h).2 (hok hc.1 hc.2)
  · refine keep_of_reflTransGen Agrees (takeLine_touch ?_ irqs)
      (fun _ _ => touch_agrees) h
    intro hproc
    by_contra hne
    exact hc ⟨hproc, (rescales_iff _).1 (by simpa using hne)⟩

/-- An `M200` moves neither position. -/
theorem takeLine_rescaled {s : Session R σ} {data : List UInt8}
    (hproc : Processes s data) (hcmd : commandOf (parsed s data) = .m .m200) :
    (takeLine P s data []).2.state.machine =
      (rescaled (parsed s data) s.fw).machine := by
  rw [takeLine_processes hproc, processGcodeCommand, runCommand, hcmd]
  show ((processM P (parsed s data) .m200 >>= _) _).2.state.machine = _
  by_cases haxis : noAxis (parsed s data) = true
  · rw [rescaled_of_noAxis haxis, processM, if_pos haxis]
    rfl
  · rw [processM, if_neg haxis]
    rfl

/-- Only what keeps the rounding keeps the agreement. -/
theorem scaleKept_of_agrees {s : Session R σ} {data : List UInt8}
    (h : Agrees s.fw) (h' : Agrees (takeLine P s data []).2.state) :
    ScaleKept s data := by
  intro hproc hcmd
  refine (rescaled_agrees_iff h).1 ?_
  intro a
  have ha := h' a
  unfold Firmware.startpoint Firmware.config at ha
  rw [takeLine_rescaled hproc hcmd] at ha
  exact ha

/-! ## Runs -/

theorem init_agrees [IsStrictOrderedRing R] (s : Session R σ) :
    Agrees s.init.fw := by
  intro a
  have hzero : s.init.fw.startpoint.coord a = 0 := by cases a <;> rfl
  have hround : lround (0 : R) = 0 := by
    have h := lround_intCast (R := R) 0
    rwa [Int.cast_zero] at h
  rw [hzero, zero_mul, hround]
  rfl

/-- A run from `plan_init` on keeps millimetres and steps in agreement, at every
line and in every wait, exactly when every `M200` it processes keeps the
rounding. -/
theorem positions_agree_iff [IsStrictOrderedRing R] {s₀ : Session R σ}
    {hist : List (Session R σ × List UInt8)} {fw₀ : Firmware R σ}
    (h : Visited P s₀.init hist fw₀) :
    (∀ hist' fw, hist' <:+ hist → Visited P s₀.init hist' fw → Agrees fw) ↔
      ∀ x ∈ hist, ScaleKept x.1 x.2 := by
  constructor
  · rintro hall ⟨s, data⟩ hx
    obtain ⟨newer, older, rfl⟩ := List.append_of_mem hx
    have hrun : Run P s₀.init older s := h.of_suffix ⟨newer, rfl⟩
    exact scaleKept_of_agrees
      (hall older s.fw ⟨newer ++ [(s, data)], by simp⟩ (.between hrun))
      (hall ((s, data) :: older) _ ⟨newer, rfl⟩ (.waiting hrun data []))
  · intro hok hist' fw hsuffix hv
    exact hv.invariant (fun _ _ => background_agrees)
      (fun s data irqs => takeLine_agrees s data irqs) (init_agrees s₀)
      fun x hx => hok x (hsuffix.subset hx)

/-! ## Two runs -/

section Example

theorem scaleKept_atOrigin : ScaleKept defaultStart (str "M200 X160\n") := by
  intro _ _ a
  cases a <;> decide +kernel

/-- At the origin the scale may change. -/
theorem positions_agree_atOrigin :
    Agrees (takeLine noCard defaultStart (str "M200 X160\n") []).2.state := by
  have hrun : Run noCard defaultBoot.init [] defaultStart := .refl
  have hv := Visited.waiting hrun (str "M200 X160\n") []
  refine (positions_agree_iff hv).2 ?_ _ _ List.suffix_rfl hv
  intro x hx
  obtain rfl := List.mem_singleton.1 hx
  exact scaleKept_atOrigin

/-- The X axis is ten steps away from the origin. -/
def atTen : Session ℚ Unit :=
  (playLine noCard defaultStart (str "G1 X0.125 F600\n")).get (by decide +kernel)

/-- Ten steps away from the origin, `M200 X160` leaves the position at ten
steps, where the current point now stands for twenty. -/
theorem positions_disagree :
    Visited noCard defaultStart
        [(atTen, str "M200 X160\n"), (defaultStart, str "G1 X0.125 F600\n")]
        (takeLine noCard atTen (str "M200 X160\n") []).2.state ∧
      ¬Agrees (takeLine noCard atTen (str "M200 X160\n") []).2.state := by
  have hdone : LineDone noCard defaultStart (str "G1 X0.125 F600\n") atTen :=
    lineDone_of_playLine (Option.some_get _).symm
  have hrun := Run.refl.line hdone
  constructor
  · exact .waiting hrun (str "M200 X160\n") []
  · intro h
    exact absurd (h .x) (by decide +kernel)

end Example

end R2C2Firmware.Ports.PositionAgreement
