import R2C2Firmware.Ports.FeedRate
import R2C2Firmware.Ports.StepperConservation

/-!
# Commands that set no origin

Homing and `G92` say where the machine is.  Every other command leaves that to
the motors: what it does to the plan is to queue waits, and moves to points that
can be read off the line.  `Advance` lists the operations such a command is made
of.  None of them places the current point, and the target of every move is in
range if the points read off the line are.

## Main results

* `takeLine_advances` — what a line does that sets no origin.
-/

set_option linter.unusedSectionVars false

namespace R2C2Firmware.Ports.OriginFree

open Relation
open R2C2Firmware.Verified.Number
open R2C2Firmware.Verified.BusyWait
open R2C2Firmware.Ports.Config
open R2C2Firmware.Ports.MotionPlanner
open R2C2Firmware.Ports.Stepper
open R2C2Firmware.Ports.Temp
open R2C2Firmware.Ports.Sermsg
open R2C2Firmware.Ports.GcodeParse
open R2C2Firmware.Ports.Mendel
open R2C2Firmware.Ports.GcodeProcess
open R2C2Firmware.Ports.MainLoop
open R2C2Firmware.Ports.FeedRate (askedMove)

variable {R σ : Type} [Field R] [LinearOrder R] [HasSqrt R] [FloorRing R]

/-- The commands that say where the machine is. -/
def setsOrigin : Command → Bool
  | .g .g28 | .g .g30 | .g .g92 => true
  | _ => false

/-- One operation of a command that sets no origin. -/
inductive Advance (P : Platform σ) : Firmware R σ → Firmware R σ → Prop where
  | irq (i : Irq) (fw : Firmware R σ) : Advance P fw (serveIrq P i fw)
  /-- text, card, temperatures, extruder settings -/
  | frame {fw fw' : Firmware R σ} (h : fw'.machine = fw.machine) :
      Advance P fw fw'
  | settings (f : Configuration R → Configuration R) (fw : Firmware R σ) :
      Advance P fw
        { fw with
          machine := { fw.machine with config := f fw.machine.config } }
  | pin {port bit : Nat} (h : (port, bit) ∈ controlPins) (state : Bool)
      (fw : Firmware R σ) : Advance P fw (digitalWrite port bit state fw)
  /-- the acceleration timer is stopped -/
  | stopTicks (fw : Firmware R σ) :
      Advance P fw
        { fw with
          machine :=
            { fw.machine with timers := disableHwTimer 0 fw.machine.timers } }
  | wait (fw : Firmware R σ) (hroom : planQueueFull fw.machine.planner = false) :
      Advance P fw { fw with machine := bufferAction waitRequest fw.machine }
  | move {request : ActionRequest R} (fw : Firmware R σ)
      (hkind : request.actionType = .move)
      (hrange : InRange fw.machine.config request.target)
      (hroom : planQueueFull fw.machine.planner = false) :
      Advance P fw { fw with machine := bufferAction request fw.machine }
  | feed (t : Target R) (fw : Firmware R σ) :
      Advance P fw
        { fw with
          machine :=
            { fw.machine with
              planner := planSetFeedRate t fw.machine.planner } }

/-- The program is made of such operations. -/
abbrev Advances {α : Type} (P : Platform σ) (x : FwM R σ α) : Prop :=
  Moves (ReflTransGen (Advance P)) x

variable {P : Platform σ}

/-! ## Handlers that queue no move -/

theorem advances_modify {f : Firmware R σ → Firmware R σ}
    (h : ∀ fw, (f fw).machine = fw.machine) :
    Advances P (modify f : FwM R σ Unit) :=
  Moves.modify fun fw => .single (.frame (h fw))

theorem advances_spinUntil (cond : Firmware R σ → Bool) :
    Advances P (spinUntil (serveIrq P) cond) :=
  Moves.spinUntil (fun i fw => .single (.irq i fw)) cond

theorem advances_text (text : List UInt8) :
    Advances P (serialWrite text : FwM R σ Unit) :=
  advances_modify fun _ => by rfl

/-- A report. -/
theorem advances_report {f : Firmware R σ → List UInt8} :
    Advances P (do let fw ← get; serialWrite (f fw) : FwM R σ Unit) :=
  Moves.get.bind fun _ => advances_text _

theorem advances_setConfig (f : Configuration R → Configuration R) :
    Advances P (setConfig f : FwM R σ Unit) :=
  Moves.modify fun fw => .single (.settings f fw)

theorem advances_digitalWrite {port bit : Nat} (h : (port, bit) ∈ controlPins)
    (state : Bool) :
    Advances P (modify (digitalWrite port bit state) : FwM R σ Unit) :=
  Moves.modify fun fw => .single (.pin h state fw)

theorem advances_tempSet (t : Int) (sensor : Sensor) :
    Advances P (tempSet t sensor : FwM R σ Unit) :=
  advances_modify fun _ => by rfl

theorem advances_enqueueWaitTemp :
    Advances P (enqueueWaitTemp P : FwM R σ Unit) :=
  Moves.spinUntil_modify (fun i fw => .single (.irq i fw))
    fun fw hroom => .single (.wait fw (by simpa using hroom))

theorem advances_g4 (c : GcodeCommand R) : Advances P (g4 P c : FwM R σ Unit) :=
  (advances_spinUntil _).bind fun _ => advances_modify fun _ => by rfl

theorem advances_sdOpen (path : List UInt8) (write : Bool) :
    Advances P (sdOpen P path write : FwM R σ Bool) :=
  Moves.get.bind fun _ => (advances_modify fun _ => by rfl).bind fun _ =>
    Moves.ite (fun _ => Moves.pure _) fun _ => (advances_text _).return _

theorem advances_m23 (c : GcodeCommand R) :
    Advances P (m23 P c : FwM R σ Unit) :=
  (advances_modify fun _ => by rfl).bind fun _ =>
    (advances_modify fun _ => by rfl).bind fun _ =>
    (advances_modify fun _ => by rfl).bind fun _ =>
    (advances_sdOpen _ _).bind fun _ =>
      Moves.ite
        (fun _ => (advances_modify fun _ => by rfl).bind fun _ =>
          Moves.get.bind fun _ => (advances_text _).bind fun _ =>
          (advances_modify fun _ => by rfl).bind fun _ => advances_text _)
        fun _ => advances_text _

theorem advances_m26 (c : GcodeCommand R) :
    Advances P (m26 P c : FwM R σ Unit) :=
  advances_modify fun fw => by
    show (if _ then _ else _ : Firmware R σ).machine = _
    split <;> rfl

theorem advances_m28 (c : GcodeCommand R) :
    Advances P (m28 P c : FwM R σ Unit) :=
  (advances_modify fun _ => by rfl).bind fun _ =>
    (advances_modify fun _ => by rfl).bind fun _ =>
    (advances_modify fun _ => by rfl).bind fun _ =>
    (advances_sdOpen _ _).bind fun _ =>
      Moves.ite
        (fun _ => (advances_modify fun _ => by rfl).bind fun _ => advances_text _)
        fun _ => advances_text _

theorem advances_enablePins (disabled : Bool) :
    Advances P (enablePins disabled : FwM R σ Unit) :=
  Moves.modify fun fw =>
    (((ReflTransGen.single (.pin (by decide) disabled fw)).tail
      (.pin (by decide) disabled _)).tail (.pin (by decide) disabled _)).tail
      (.pin (by decide) disabled _)

theorem advances_tableEntry (sensor : Sensor) (c : GcodeCommand R) :
    Advances P (tableEntry sensor c : FwM R σ (Outcome R)) :=
  Moves.ite (fun _ => (advances_modify fun _ => by rfl).return _) fun _ =>
    Moves.ite (fun _ => Moves.get.bind fun _ => (advances_text _).return _)
      fun _ => (advances_text _).return _

/-! ## Handlers that queue moves -/

/-- What is in range stays in range while a request waits for room. -/
theorem planBufferActionWait_advances {request : ActionRequest R}
    (hkind : request.actionType = .move) {w : World (Firmware R σ) Irq}
    (hrange : InRange w.state.machine.config request.target) :
    ReflTransGen (Advance P) w.state
      (planBufferActionWait P request w).2.state := by
  have hmoves : Moves
      (fun fw fw' : Firmware R σ => InRange fw.machine.config request.target →
        InRange fw'.machine.config request.target ∧
          ReflTransGen (Advance P) fw fw')
      (planBufferActionWait P request : FwM R σ Unit) := by
    have hpre : IsPreorder (Firmware R σ) fun fw fw' =>
        InRange fw.machine.config request.target →
          InRange fw'.machine.config request.target ∧
            ReflTransGen (Advance P) fw fw' :=
      { refl := fun _ h => ⟨h, .refl⟩
        trans := fun _ _ _ h h' hin =>
          ⟨(h' (h hin).1).1, (h hin).2.trans (h' (h hin).1).2⟩ }
    refine Moves.spinUntil_modify (fun i fw hin => ⟨?_, .single (.irq i fw)⟩)
      fun fw hroom hin =>
        ⟨?_, .single (.move fw hkind hin (by simpa using hroom))⟩
    · rw [(serveIrq_discards P i fw).1]
      exact hin
    · show InRange (bufferAction request fw.machine).config request.target
      rw [(bufferAction_frame request fw.machine).1]
      exact hin
  exact (hmoves w hrange).2

theorem enqueueMoved_advances {t : Target R} {w : World (Firmware R σ) Irq}
    (hrange : InRange w.state.config (moveRequest t w.state).target) :
    ReflTransGen (Advance P) w.state (enqueueMoved P t w).2.state := by
  show ReflTransGen (Advance P) w.state
    ((if departs t w.state = true then planBufferActionWait P (moveRequest t w.state)
      else onPlanner fun _ => planSetFeedRate t : FwM R σ Unit) w).2.state
  split
  · exact planBufferActionWait_advances rfl hrange
  · exact .single (.feed t w.state)

theorem specialMoveE_advances {e f : R} {w : World (Firmware R σ) Irq}
    (hrange : InRange w.state.config
      (moveRequest (extrusion e f w.state) w.state).target) :
    ReflTransGen (Advance P) w.state (specialMoveE P e f w).2.state := by
  show ReflTransGen (Advance P) w.state
    ((if w.state.config.enableExtruder1 ≠ 0 then
        enqueueMoved P (extrusion e f w.state)
      else pure () : FwM R σ Unit) w).2.state
  split
  · exact enqueueMoved_advances hrange
  · exact .refl

/-- Where `M542` rests, at a height. -/
def restPoint (c : GcodeCommand R) (z : R) (fw : Firmware R σ) : Target R :=
  { (if fw.startpoint.z < 2 then fw.startpoint
      else nextTargetd c fw.startpoint) with
    x := (fw.config.restPosX : R)
    y := (fw.config.restPosY : R)
    z }

/-- The points a command asks the planner to move to.  The height `M542` rests
at is the one it has found or two millimetres. -/
def askedPoints (c : GcodeCommand R) (fw : Firmware R σ) : List (Target R) :=
  match commandOf c with
  | .m .m542 =>
      if fw.config.haveRestPos ≠ 0 then
        [{ fw.startpoint with z := 2 }, restPoint c fw.startpoint.z fw,
          restPoint c 2 fw]
      else []
  | _ => (askedMove c fw).toList

/-- The points the command asks for are in range. -/
def Reaches (c : GcodeCommand R) (fw : Firmware R σ) : Prop :=
  ∀ t ∈ askedPoints c fw, InRange fw.config (moveRequest t fw).target

theorem inRange_of_coord {cfg : Configuration R} {t t' : Target R}
    (h : t'.coord = t.coord) (ht : InRange cfg t) : InRange cfg t' := by
  intro a
  rw [h]
  exact ht a

/-- The current point ends at the target, or where it was. -/
theorem enqueueMoved_ends {t : Target R} {w w' : World (Firmware R σ) Irq}
    (h : enqueueMoved P t w = (some (), w')) :
    w'.state.config = w.state.config ∧
      (w'.state.startpoint.coord = w.state.startpoint.coord ∨
        w'.state.startpoint.coord = (moveRequest t w.state).target.coord) := by
  rw [enqueueMoved, get_bind_apply] at h
  by_cases hdeparts : departs t w.state = true
  · rw [if_pos hdeparts] at h
    obtain ⟨fw, hpoint, hw'⟩ := planBufferActionWait_returns h
    have hframe := bufferAction_frame (moveRequest t w.state) fw.machine
    have hstart : w'.state.startpoint =
        (planBufferLine fw.machine.config (moveRequest t w.state)
          fw.machine.planner).1.startpoint := by
      rw [hw']
      exact congrArg Planner.startpoint hframe.2.1
    constructor
    · rw [hw']
      exact hframe.1.trans hpoint.config
    · rw [hstart]
      rcases PositionAgreement.planBufferLine_position fw.machine.config
        (moveRequest t w.state) fw.machine.planner with ⟨-, hsame⟩ | ⟨-, htarget⟩
      · left
        rw [hsame, hpoint.startpoint]
        rfl
      · right
        rw [htarget]
  · rw [if_neg hdeparts] at h
    have hw' : w' = { w with
        state := { w.state with
          machine := { w.state.machine with
            planner := planSetFeedRate t w.state.machine.planner } } } :=
      (congrArg Prod.snd h).symm
    rw [hw']
    refine ⟨rfl, .inl ?_⟩
    funext a
    cases a <;> rfl

/-- The second half of `M542`, the way to the rest position, asks for points in range
only. -/
theorem rest_advances {c : GcodeCommand R} {fw : Firmware R σ}
    {w : World (Firmware R σ) Irq} {t : Target R} {z : R}
    (hconfig : w.state.config = fw.config) (hz : w.state.startpoint.z = z)
    (he : w.state.startpoint.e = fw.startpoint.e)
    (ht : t.e = (restPoint c z fw).e)
    (hrange : InRange fw.config (moveRequest (restPoint c z fw) fw).target) :
    ReflTransGen (Advance P) w.state
      (enqueueMoved P
        { t with
          x := (fw.config.restPosX : R)
          y := (fw.config.restPosY : R)
          z := w.state.startpoint.z
          feedRate := (fw.config.maximumFeedrate .x : R) } w).2.state := by
  refine enqueueMoved_advances ?_
  rw [hconfig]
  refine inRange_of_coord ?_ hrange
  funext a
  cases a with
  | x | y => rfl
  | z => exact hz
  | e =>
      show (if w.state.config.enableExtruder1 = 0 then w.state.startpoint.e
          else t.e) =
        if fw.config.enableExtruder1 = 0 then fw.startpoint.e
        else (restPoint c z fw).e
      rw [hconfig, he, ht]

theorem m542_advances {c : GcodeCommand R} (hcmd : commandOf c = .m .m542)
    {w : World (Firmware R σ) Irq} (hreach : Reaches c w.state) :
    ReflTransGen (Advance P) w.state (m542 P c w).2.state := by
  rw [m542, get_bind_apply]
  by_cases hrest : w.state.config.haveRestPos ≠ 0
  · unfold Reaches askedPoints at hreach
    simp only [hcmd, if_pos hrest, List.forall_mem_cons] at hreach
    obtain ⟨habove, hhere, hhigh, -⟩ := hreach
    rw [decide_eq_true hrest, Verified.BusyWait.when, if_pos rfl]
    by_cases hlow : w.state.startpoint.z < 2
    · have hextruder : ∀ z, (restPoint c z w.state).e = w.state.startpoint.e := by
        intro z
        rw [restPoint, if_pos hlow]
      rw [decide_eq_true hlow, Verified.BusyWait.when, if_pos rfl, if_pos rfl,
        bind_apply]
      set above : Target R :=
        { w.state.startpoint with
          z := 2
          feedRate := (w.state.config.maximumFeedrate .z : R) }
      have hfirst : ReflTransGen (Advance P) w.state
          (enqueueMoved P above w).2.state :=
        enqueueMoved_advances (inRange_of_coord (by funext a; cases a <;> rfl) habove)
      rcases hx : enqueueMoved P above w with ⟨_ | ⟨⟩, w'⟩
      · rw [hx] at hfirst
        exact hfirst
      · rw [hx] at hfirst
        obtain ⟨hconfig, hends⟩ := enqueueMoved_ends hx
        refine hfirst.trans ?_
        rcases hends with hsame | htarget
        · exact rest_advances hconfig (congrFun hsame .z) (congrFun hsame .e)
            (hextruder _).symm hhere
        · refine rest_advances hconfig (congrFun htarget .z)
            ((congrFun htarget .e).trans ?_) (hextruder _).symm hhigh
          show (if w.state.config.enableExtruder1 = 0 then w.state.startpoint.e
            else w.state.startpoint.e) = _
          rw [ite_self]
    · rw [decide_eq_false hlow]
      refine rest_advances (P := P) (w := w) rfl rfl rfl ?_ hhere
      rw [restPoint, if_neg hlow]
      rfl
  · rw [decide_eq_false hrest]
    exact .refl

/-! ## Commands -/

section Commands

variable {c : GcodeCommand R} {w : World (Firmware R σ) Irq}

/-- A command that asks for one point has that point in range; `M542` asks for several.
-/
theorem Reaches.asked {t : Target R} (h : Reaches c w.state)
    (hcmd : commandOf c ≠ .m .m542) (ht : askedMove c w.state = some t) :
    InRange w.state.config (moveRequest t w.state).target := by
  refine h t ?_
  unfold askedPoints
  split
  · next heq => exact absurd heq hcmd
  · rw [ht]
    exact List.mem_singleton_self t

/-- A `G1` asks for its target. -/
theorem reaches_g1 {fw : Firmware R σ} (hcmd : commandOf c = .g .g1)
    (h : InRange fw.config (moveRequest (g1Target c fw) fw).target) :
    Reaches c fw := by
  intro t ht
  unfold askedPoints askedMove at ht
  rw [hcmd] at ht
  obtain rfl := List.mem_singleton.1 ht
  exact h

theorem processG_advances {code : GCode} (hcmd : commandOf c = .g code)
    (hfree : setsOrigin (.g code) = false) (hreach : Reaches c w.state) :
    ReflTransGen (Advance P) w.state (processG P c code w).2.state := by
  have hother : commandOf c ≠ .m .m542 := by simp [hcmd]
  cases code with
  | g0 =>
      rw [processG, bind_pure_snd, g0, get_bind_apply]
      exact enqueueMoved_advances (hreach.asked hother (by simp [askedMove, hcmd]))
  | g1 =>
      rw [processG, bind_pure_snd, g1, get_bind_apply]
      exact enqueueMoved_advances (hreach.asked hother (by simp [askedMove, hcmd]))
  | g4 => exact (advances_g4 c).return _ w
  | g20 | g21 | g90 | g91 => exact .refl
  | g28 | g30 | g92 => simp [setsOrigin] at hfree

theorem processM_advances {code : MCode} (hcmd : commandOf c = .m code)
    (hreach : Reaches c w.state) :
    ReflTransGen (Advance P) w.state (processM P c code w).2.state := by
  cases code with
  | m20 =>
      exact Moves.return ((advances_text _).bind fun _ =>
        advances_report.bind fun _ => advances_text _) _ w
  | m21 =>
      exact Moves.return ((advances_modify fun _ => by rfl).bind fun _ =>
        advances_modify fun _ => by rfl) _ w
  | m22 => exact Moves.return (advances_modify fun _ => by rfl) _ w
  | m23 => exact (advances_m23 c).return _ w
  | m24 => exact Moves.return (advances_modify fun _ => by rfl) _ w
  | m25 => exact Moves.return (advances_modify fun _ => by rfl) _ w
  | m26 => exact (advances_m26 c).return _ w
  | m27 =>
      exact Moves.return (Moves.get.bind fun _ =>
        Moves.ite (fun _ => advances_text _) fun _ => advances_text _) _ w
  | m28 => exact (advances_m28 c).return _ w
  | m101 =>
      rw [processM, bind_pure_snd]
      refine .trans (show ReflTransGen (Advance P) w.state
        { w.state with extrudersOn := 1 } from .single (.frame rfl)) ?_
      show ReflTransGen (Advance P) _ ((Verified.BusyWait.when
        (w.state.autoPrimeSteps ≠ 0) _ : FwM R σ Unit) ⟨_, w.irqs⟩).2.state
      by_cases hsteps : w.state.autoPrimeSteps ≠ 0
      · rw [decide_eq_true hsteps]
        refine specialMoveE_advances (w := ⟨{ w.state with extrudersOn := 1 }, w.irqs⟩)
          (hreach.asked (by simp [hcmd]) ?_)
        unfold askedMove
        rw [hcmd]
        exact if_pos hsteps
      · rw [decide_eq_false hsteps]
        exact .refl
  | m103 =>
      rw [processM, bind_pure_snd]
      refine .trans (show ReflTransGen (Advance P) w.state
        { w.state with extrudersOn := 0 } from .single (.frame rfl)) ?_
      show ReflTransGen (Advance P) _ ((Verified.BusyWait.when
        (w.state.autoReverseSteps ≠ 0) _ : FwM R σ Unit) ⟨_, w.irqs⟩).2.state
      by_cases hsteps : w.state.autoReverseSteps ≠ 0
      · rw [decide_eq_true hsteps]
        refine specialMoveE_advances (w := ⟨{ w.state with extrudersOn := 0 }, w.irqs⟩)
          (hreach.asked (by simp [hcmd]) ?_)
        unfold askedMove
        rw [hcmd]
        exact if_pos hsteps
      · rw [decide_eq_false hsteps]
        exact .refl
  | m104 =>
      exact Moves.return (Moves.get.bind fun _ => Moves.when fun _ =>
        (advances_tempSet _ _).bind fun _ =>
        Moves.when fun _ => advances_enqueueWaitTemp) _ w
  | m105 => exact advances_report.return _ w
  | m106 => exact (advances_digitalWrite (by decide) true).return _ w
  | m107 => exact (advances_digitalWrite (by decide) false).return _ w
  | m108 =>
      exact Moves.return (Moves.when fun _ => advances_modify fun _ => by rfl) _ w
  | m109 =>
      exact Moves.return (Moves.get.bind fun _ => Moves.when fun _ =>
        (advances_tempSet _ _).bind fun _ => advances_enqueueWaitTemp) _ w
  | m112 => exact Moves.return (Moves.modify fun fw => .single (.stopTicks fw)) _ w
  | m114 =>
      exact Moves.return
        (Moves.get.bind fun _ => Moves.when fun _ => advances_text _) _ w
  | m115 => exact (advances_text _).return _ w
  | m119 => exact Moves.return (Moves.get.bind fun _ => advances_text _) _ w
  | m140 => exact (advances_tempSet _ _).return _ w
  | m190 =>
      exact Moves.return ((advances_enablePins false).bind fun _ =>
        advances_modify fun _ => by rfl) _ w
  | m191 => exact (advances_enablePins true).return _ w
  | m200 =>
      refine (?_ : Advances P (processM P c .m200)) w
      exact Moves.ite (fun _ => advances_report.return _)
        fun _ => (advances_setConfig _).bind fun _ => Moves.get.bind fun _ =>
          Moves.pure _
  | m202 =>
      refine (?_ : Advances P (processM P c .m202)) w
      exact Moves.ite (fun _ => advances_report.return _)
        fun _ => Moves.return (advances_setConfig _) _
  | m206 =>
      refine (?_ : Advances P (processM P c .m206)) w
      exact Moves.ite (fun _ => advances_report.return _)
        fun _ => Moves.return (advances_setConfig _) _
  | m227 =>
      exact Moves.return (Moves.when fun _ => advances_modify fun _ => by rfl) _ w
  | m228 => exact Moves.return (advances_modify fun _ => by rfl) _ w
  | m229 =>
      exact Moves.return (Moves.when fun _ => advances_modify fun _ => by rfl) _ w
  | m300 =>
      exact Moves.return ((advances_spinUntil _).bind fun _ =>
        advances_modify fun _ => by rfl) _ w
  | m500 => exact advances_tableEntry _ c w
  | m501 => exact advances_tableEntry _ c w
  | m542 =>
      rw [processM, bind_pure_snd]
      exact m542_advances hcmd hreach
  | m551 =>
      rw [processM, bind_pure_snd, m551]
      by_cases hseen : (c.seenS && c.seenP) = true
      · rw [hseen]
        refine specialMoveE_advances (hreach.asked (by simp [hcmd]) ?_)
        unfold askedMove
        rw [hcmd]
        exact if_pos hseen
      · rw [Bool.not_eq_true] at hseen
        rw [hseen]
        exact .refl
  | m600 => exact Moves.return (Moves.get.bind fun _ => advances_text _) _ w
  | m29 | m82 | m110 | m111 | m113 | m130 | m131 | m132 | m133 | m134 | m141
  | m142 | m543 => exact .refl

theorem processGcodeCommand_advances
    (hfree : setsOrigin (commandOf c) = false) (hreach : Reaches c w.state) :
    ReflTransGen (Advance P) w.state (processGcodeCommand P c w).2.state := by
  have hrun : ReflTransGen (Advance P) w.state (runCommand P c w).2.state := by
    cases hcmd : commandOf c with
    | g code =>
        rw [runCommand, hcmd]
        exact processG_advances hcmd (hcmd ▸ hfree) hreach
    | m code =>
        rw [runCommand, hcmd]
        exact processM_advances hcmd hreach
    | badG | badM =>
        rw [runCommand, hcmd]
        exact (advances_text _).return _ w
    | nothing =>
        rw [runCommand, hcmd]
        exact .refl
  exact moves_bind_at hrun fun _ =>
    Moves.return (Moves.when fun _ => advances_text _) _

end Commands

/-! ## Lines -/

/-- If the line is processed, it sets no origin, and the points it asks for are in
range. -/
def LineReaches (s : Session R σ) (data : List UInt8) : Prop :=
  Processes s data → setsOrigin (commandOf (parsed s data)) = false ∧
    Reaches (parsed s data) s.fw

/-- A line that sets no origin is made of such operations. -/
theorem takeLine_advances {s : Session R σ} {data : List UInt8}
    (h : LineReaches s data) (irqs : List Irq) :
    ReflTransGen (Advance P) s.fw (takeLine P s data irqs).2.state := by
  by_cases hproc : Processes s data
  · rw [takeLine_processes hproc]
    exact processGcodeCommand_advances (w := ⟨s.fw, irqs⟩) (h hproc).1 (h hproc).2
  · rw [takeLine_state]
    split
    · next hsum =>
      have hsd : s.fw.sdWritingFile = true := by
        by_contra hsd
        exact hproc ⟨hsum, by simpa using hsd⟩
      rw [if_pos hsd]
      exact Moves.ite
        (fun _ => Moves.ite
          (fun _ => (advances_modify fun _ => by rfl).bind fun _ =>
            (advances_modify fun _ => by rfl).bind fun _ => advances_text _)
          fun _ => advances_text _)
        (fun _ => Moves.bind
          (Moves.get.bind fun _ => Moves.return (advances_modify fun _ => by rfl) _)
          fun _ => Moves.ite (fun _ => advances_text _)
            fun _ => advances_text _) ⟨s.fw, irqs⟩
    · exact advances_text _ ⟨s.fw, irqs⟩

end R2C2Firmware.Ports.OriginFree
