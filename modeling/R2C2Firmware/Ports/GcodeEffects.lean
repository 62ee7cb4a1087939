import R2C2Firmware.Ports.MainLoop
import R2C2Firmware.Ports.StepperFrame

/-!
# What a command can do to the machine

Every handler is a sequence of a few primitive operations.  `Quiet` lists those
of a command that queues no move; `Touch` adds the two that a motion command
has.  What holds of a property across the primitives then holds across every
command, every wait inside it and every line.

`M200` stands apart: it changes the scale between millimetres and steps.

## Main results

* `takeLine_quiet`, `takeLine_touch` — what a line does, by the command on it.
* `takeLine_rescales` — what a line with `M200` does.
-/

set_option linter.unusedSectionVars false

namespace R2C2Firmware.Ports.GcodeProcess

open Relation
open R2C2Firmware.Verified.Number
open R2C2Firmware.Verified.BusyWait
open R2C2Firmware.Ports.Config
open R2C2Firmware.Ports.MotionPlanner
open R2C2Firmware.Ports.Stepper
open R2C2Firmware.Ports.Temp
open R2C2Firmware.Ports.Sermsg
open R2C2Firmware.Ports.GcodeParse
open R2C2Firmware.Ports.Mendel
open R2C2Firmware.Ports.MainLoop

variable {R σ : Type} [Field R] [LinearOrder R] [HasSqrt R] [FloorRing R]
  [HasDouble R]

/-! ## Interrupts and requests -/

/-- Of the configuration and the plan, an interrupt changes nothing but the
tail index. -/
theorem serveIrq_discards (P : Platform σ) (i : Irq) (fw : Firmware R σ) :
    Discards fw.machine (serveIrq P i fw).machine := by
  have hrefl : Discards fw.machine fw.machine := ⟨rfl, .inl rfl⟩
  cases i with
  | step =>
      show Discards _ (if fw.machine.timers.enabled 1 then _ else _ :
        Firmware R σ).machine
      split
      · exact stInterrupt_discards _ { fw.machine with gpio := _ }
      · exact hrefl
  | accel =>
      show Discards _ (if fw.machine.timers.enabled 0 then _ else _ :
        Firmware R σ).machine
      split
      · exact ⟨rfl, .inl rfl⟩
      · exact hrefl
  | temperature extruder bed =>
      show Discards _ (temperatureTimerCallback extruder bed fw).machine
      unfold temperatureTimerCallback
      dsimp only
      split
      · exact hrefl
      · exact ⟨rfl, .inl rfl⟩
  | buzzerOff => exact hrefl
  | endstops x y z => exact hrefl

/-- Configuration, position and current point are the same. -/
structure SamePoint (fw fw' : Firmware R σ) : Prop where
  config : fw'.machine.config = fw.machine.config
  position : fw'.machine.planner.position = fw.machine.planner.position
  startpoint : fw'.machine.planner.startpoint = fw.machine.planner.startpoint

instance samePoint_isPreorder :
    IsPreorder (Firmware R σ) (SamePoint : Firmware R σ → _ → Prop) where
  refl _ := ⟨rfl, rfl, rfl⟩
  trans _ _ _ h h' := ⟨h'.config.trans h.config, h'.position.trans h.position,
    h'.startpoint.trans h.startpoint⟩

/-- An interrupt leaves the current point and the feed rate alone. -/
theorem serveIrq_samePoint (P : Platform σ) (i : Irq) (fw : Firmware R σ) :
    SamePoint fw (serveIrq P i fw) :=
  have h := serveIrq_discards P i fw
  ⟨h.1, h.position.1, h.position.2⟩

/-- A request that has been queued was queued at the point where the wait for
room began. -/
theorem planBufferActionWait_returns {P : Platform σ}
    {request : ActionRequest R} {w w' : World (Firmware R σ) Irq}
    (h : planBufferActionWait P request w = (some (), w')) :
    ∃ fw, SamePoint w.state fw ∧
      w'.state = { fw with machine := bufferAction request fw.machine } := by
  obtain ⟨_, w₁, hspin, hmodify⟩ := bind_eq_some.1 h
  refine ⟨w₁.state, ?_, ?_⟩
  · exact (Moves.spinUntil (serveIrq_samePoint P) _).of_eq hspin
  · rw [← (Prod.mk.inj hmodify).2]

/-! ## Primitive operations -/

/-- The wait request of `enqueue_wait_temp`. -/
def waitRequest : ActionRequest R := { actionType := .waitTemps, target := .zero }

/-- The pins the commands drive: fan and driver enables. -/
def controlPins : List (Nat × Nat) := [(2, 3), (1, 24), (1, 28), (0, 1), (2, 10)]

/-- One operation of a command that queues no move. -/
inductive Quiet (P : Platform σ) : Firmware R σ → Firmware R σ → Prop where
  | irq (i : Irq) (fw : Firmware R σ) : Quiet P fw (serveIrq P i fw)
  /-- text, card, temperatures, extruder settings -/
  | frame {fw fw' : Firmware R σ} (h : fw'.machine = fw.machine) :
      Quiet P fw fw'
  /-- a setting other than the scale -/
  | settings {f : Configuration R → Configuration R}
      (hf : ∀ cfg, (f cfg).stepsPerMm = cfg.stepsPerMm) (fw : Firmware R σ) :
      Quiet P fw
        { fw with
          machine := { fw.machine with config := f fw.machine.config } }
  | pin {port bit : Nat} (h : (port, bit) ∈ controlPins) (state : Bool)
      (fw : Firmware R σ) : Quiet P fw (digitalWrite port bit state fw)
  /-- the acceleration timer is stopped -/
  | stopTicks (fw : Firmware R σ) :
      Quiet P fw
        { fw with
          machine :=
            { fw.machine with timers := disableHwTimer 0 fw.machine.timers } }
  | wait (fw : Firmware R σ) (hroom : planQueueFull fw.machine.planner = false) :
      Quiet P fw { fw with machine := bufferAction waitRequest fw.machine }
  /-- a new origin -/
  | place {t : Target R} (fw : Firmware R σ)
      (ht : t.feedRate = fw.startpoint.feedRate) :
      Quiet P fw
        { fw with
          machine :=
            { fw.machine with
              planner :=
                planSetCurrentPosition fw.machine.config t fw.machine.planner } }

/-- One operation of any command but `M200`. -/
inductive Touch (P : Platform σ) : Firmware R σ → Firmware R σ → Prop where
  | quiet {fw fw' : Firmware R σ} (h : Quiet P fw fw') : Touch P fw fw'
  | move {request : ActionRequest R} (fw : Firmware R σ)
      (hkind : request.actionType = .move ∨ request.actionType = .moveEndstop)
      (hroom : planQueueFull fw.machine.planner = false) :
      Touch P fw { fw with machine := bufferAction request fw.machine }
  | feed (t : Target R) (fw : Firmware R σ) :
      Touch P fw
        { fw with
          machine :=
            { fw.machine with
              planner := planSetFeedRate t fw.machine.planner } }

/-- The program is made of quiet operations. -/
abbrev IsQuiet {α : Type} (P : Platform σ) (x : FwM R σ α) : Prop :=
  Moves (ReflTransGen (Quiet P)) x

/-- The program is made of the operations of commands. -/
abbrev Touches {α : Type} (P : Platform σ) (x : FwM R σ α) : Prop :=
  Moves (ReflTransGen (Touch P)) x

variable {P : Platform σ}

/-- What queues nothing does nothing that a command of motion may not do. -/
theorem IsQuiet.touches {α : Type} {x : FwM R σ α} (h : IsQuiet P x) :
    Touches P x :=
  h.of_steps fun _ _ hq => .single (.quiet hq)

/-! ## Handlers that queue no move -/

/-- A change outside the machine queues nothing. -/
theorem isQuiet_modify {f : Firmware R σ → Firmware R σ}
    (h : ∀ fw, (f fw).machine = fw.machine) :
    IsQuiet P (modify f : FwM R σ Unit) :=
  Moves.modify fun fw => .single (.frame (h fw))

/-- Waiting queues nothing, whatever interrupts arrive. -/
theorem isQuiet_spinUntil (cond : Firmware R σ → Bool) :
    IsQuiet P (spinUntil (serveIrq P) cond) :=
  Moves.spinUntil (fun i fw => .single (.irq i fw)) cond

/-- Sending a text queues nothing. -/
theorem serialWrite_quiet (text : List UInt8) :
    IsQuiet P (serialWrite text : FwM R σ Unit) :=
  isQuiet_modify fun _ => by rfl

theorem send_quiet (format : String) (args : List (Arg R)) :
    IsQuiet P (send format args : FwM R σ Unit) :=
  serialWrite_quiet _

/-- Waiting for the queue to drain puts nothing into it. -/
theorem synchQueue_quiet : IsQuiet P (synchQueue P : FwM R σ Unit) :=
  isQuiet_spinUntil _

theorem tempSet_quiet (t : Int) (sensor : Sensor) :
    IsQuiet P (tempSet t sensor : FwM R σ Unit) :=
  isQuiet_modify fun _ => by rfl

/-- Waiting for a temperature queues a block that moves nothing. -/
theorem enqueueWaitTemp_quiet :
    IsQuiet P (enqueueWaitTemp P : FwM R σ Unit) :=
  Moves.spinUntil_modify (fun i fw => .single (.irq i fw))
    fun fw hroom => .single (.wait fw (by simpa using hroom))

/-- A setting that is no scale changes nothing about the point. -/
theorem setConfig_quiet {f : Configuration R → Configuration R}
    (hf : ∀ cfg, (f cfg).stepsPerMm = cfg.stepsPerMm) :
    IsQuiet P (setConfig f : FwM R σ Unit) :=
  Moves.modify fun fw => .single (.settings hf fw)

/-- The pins of the heaters and the drivers are not those of the steps. -/
theorem digitalWrite_quiet {port bit : Nat} (h : (port, bit) ∈ controlPins)
    (state : Bool) :
    IsQuiet P (modify (digitalWrite port bit state) : FwM R σ Unit) :=
  Moves.modify fun fw => .single (.pin h state fw)

/-- Setting the origin to a point that keeps the feed rate. -/
theorem setCurrentPosition_quiet {f : Firmware R σ → Target R}
    (hf : ∀ fw, (f fw).feedRate = fw.startpoint.feedRate) :
    IsQuiet P (do let fw ← get; setCurrentPosition (f fw) : FwM R σ Unit) :=
  Moves.get_bind fun w => .single (.place w.state (hf w.state))

/-- The origin of the extruder is set without a move. -/
theorem zeroE_quiet : IsQuiet P (zeroE : FwM R σ Unit) :=
  setCurrentPosition_quiet fun _ => by rfl

/-- `G92` waits, and sets the point to what the position is to mean. -/
theorem g92_quiet (c : GcodeCommand R) : IsQuiet P (g92 P c : FwM R σ Unit) :=
  synchQueue_quiet.bind fun _ => setCurrentPosition_quiet fun _ => by rfl

theorem g4_quiet (c : GcodeCommand R) : IsQuiet P (g4 P c : FwM R σ Unit) :=
  synchQueue_quiet.bind fun _ => isQuiet_modify fun _ => by rfl

/-- Opening a file queues nothing, whether it succeeds or not. -/
theorem sdOpen_quiet (path : List UInt8) (write : Bool) :
    IsQuiet P (sdOpen P path write : FwM R σ Bool) :=
  Moves.get.bind fun _ => (isQuiet_modify fun _ => by rfl).bind fun _ =>
    Moves.ite (fun _ => Moves.pure _) fun _ => (serialWrite_quiet _).return _

theorem m20_quiet : IsQuiet P (m20 P : FwM R σ Unit) :=
  (serialWrite_quiet _).bind fun _ =>
    (Moves.get.bind fun _ => serialWrite_quiet _).bind fun _ =>
      serialWrite_quiet _

theorem m21_quiet : IsQuiet P (m21 : FwM R σ Unit) :=
  (isQuiet_modify fun _ => by rfl).bind fun _ => isQuiet_modify fun _ => by rfl

/-- Selecting a file queues nothing. -/
theorem m23_quiet (c : GcodeCommand R) : IsQuiet P (m23 P c : FwM R σ Unit) :=
  (isQuiet_modify fun _ => by rfl).bind fun _ =>
    (isQuiet_modify fun _ => by rfl).bind fun _ =>
    (isQuiet_modify fun _ => by rfl).bind fun _ =>
    (sdOpen_quiet _ _).bind fun _ =>
      Moves.ite
        (fun _ => (isQuiet_modify fun _ => by rfl).bind fun _ =>
          Moves.get.bind fun _ =>
          (send_quiet _ _).bind fun _ =>
          (isQuiet_modify fun _ => by rfl).bind fun _ => send_quiet _ _)
        fun _ => send_quiet _ _

theorem m26_quiet (c : GcodeCommand R) : IsQuiet P (m26 P c : FwM R σ Unit) :=
  isQuiet_modify fun fw => by
    show (if _ then _ else _ : Firmware R σ).machine = _
    split <;> rfl

theorem m27_quiet : IsQuiet P (m27 : FwM R σ Unit) :=
  Moves.get.bind fun _ =>
    Moves.ite (fun _ => send_quiet _ _) fun _ => serialWrite_quiet _

/-- Starting an upload queues nothing. -/
theorem m28_quiet (c : GcodeCommand R) : IsQuiet P (m28 P c : FwM R σ Unit) :=
  (isQuiet_modify fun _ => by rfl).bind fun _ =>
    (isQuiet_modify fun _ => by rfl).bind fun _ =>
    (isQuiet_modify fun _ => by rfl).bind fun _ =>
    (sdOpen_quiet _ _).bind fun _ =>
      Moves.ite
        (fun _ => (isQuiet_modify fun _ => by rfl).bind fun _ => send_quiet _ _)
        fun _ => send_quiet _ _

/-- `M104` may queue a wait, but no move. -/
theorem m104_quiet (c : GcodeCommand R) : IsQuiet P (m104 P c : FwM R σ Unit) :=
  Moves.get.bind fun _ => Moves.when fun _ =>
    (tempSet_quiet _ _).bind fun _ => Moves.when fun _ => enqueueWaitTemp_quiet

/-- `M109` queues a wait, but no move. -/
theorem m109_quiet (c : GcodeCommand R) : IsQuiet P (m109 P c : FwM R σ Unit) :=
  Moves.get.bind fun _ => Moves.when fun _ =>
    (tempSet_quiet _ _).bind fun _ => enqueueWaitTemp_quiet

theorem extruderFan_quiet (on : Bool) :
    IsQuiet P (extruderFan on : FwM R σ Unit) :=
  digitalWrite_quiet (by decide) on

/-- The emergency stop moves nothing. -/
theorem m112_quiet : IsQuiet P (m112 : FwM R σ Unit) :=
  Moves.modify fun fw => .single (.stopTicks fw)

theorem m114_quiet (c : GcodeCommand R) : IsQuiet P (m114 c : FwM R σ Unit) :=
  Moves.get.bind fun _ => Moves.when fun _ => send_quiet _ _

theorem enablePins_quiet (disabled : Bool) :
    IsQuiet P (enablePins disabled : FwM R σ Unit) := by
  refine Moves.modify fun fw => ?_
  exact (((ReflTransGen.single (.pin (by decide) disabled fw)).tail
    (.pin (by decide) disabled _)).tail (.pin (by decide) disabled _)).tail
    (.pin (by decide) disabled _)

theorem m300_quiet (c : GcodeCommand R) : IsQuiet P (m300 P c : FwM R σ Unit) :=
  (isQuiet_spinUntil _).bind fun _ => isQuiet_modify fun _ => by rfl

theorem tableEntry_quiet (sensor : Sensor) (c : GcodeCommand R) :
    IsQuiet P (tableEntry sensor c : FwM R σ (Outcome R)) :=
  Moves.ite (fun _ => (isQuiet_modify fun _ => by rfl).return _) fun _ =>
    Moves.ite (fun _ => Moves.get.bind fun _ => (send_quiet _ _).return _)
      fun _ => (serialWrite_quiet _).return _

/-- A report of settings queues nothing. -/
theorem report_quiet {format : String} {args : Firmware R σ → List (Arg R)} :
    IsQuiet P (do let fw ← get; send format (args fw) : FwM R σ Unit) :=
  Moves.get.bind fun _ => send_quiet _ _

/-! ## Handlers that queue moves -/

/-- A request for a move waits for room and is put into the queue, and does nothing
else. -/
theorem planBufferActionWait_touches {request : ActionRequest R}
    (hkind : request.actionType = .move ∨ request.actionType = .moveEndstop) :
    Touches P (planBufferActionWait P request : FwM R σ Unit) :=
  Moves.spinUntil_modify (fun i fw => .single (.quiet (.irq i fw)))
    fun fw hroom => .single (.move fw hkind (by simpa using hroom))

/-- A move waits for room and is queued, or sets the feed rate where it asks for no
steps. -/
theorem enqueueMoved_touches (t : Target R) :
    Touches P (enqueueMoved P t : FwM R σ Unit) :=
  Moves.get.bind fun _ =>
    Moves.ite (fun _ => planBufferActionWait_touches (.inl rfl))
      fun _ => Moves.modify fun fw => .single (.feed t fw)

/-- The moves of homing are queued at a feed rate of their own. -/
theorem specialMove_touches (t : Target R) (feedRate : R) :
    Touches P (specialMove P t feedRate : FwM R σ Unit) :=
  planBufferActionWait_touches (.inr rfl)

theorem specialMoveXY_touches (x y f : R) :
    Touches P (specialMoveXY P x y f : FwM R σ Unit) :=
  Moves.get.bind fun _ => specialMove_touches _ _

theorem specialMoveZ_touches (z f : R) :
    Touches P (specialMoveZ P z f : FwM R σ Unit) :=
  Moves.get.bind fun _ => specialMove_touches _ _

theorem specialMoveE_touches (e f : R) :
    Touches P (specialMoveE P e f : FwM R σ Unit) :=
  Moves.get.bind fun _ =>
    Moves.ite (fun _ => enqueueMoved_touches _) fun _ => Moves.pure _

/-- The last lines of the homing functions. -/
theorem setCurrentPosition_touches {f : Firmware R σ → Target R}
    (hf : ∀ fw, (f fw).feedRate = fw.startpoint.feedRate) :
    Touches P (do let fw ← get; setCurrentPosition (f fw) : FwM R σ Unit) :=
  (setCurrentPosition_quiet hf).touches

/-- Homing an axis is three moves and an origin. -/
theorem zeroX_touches : Touches P (zeroX P : FwM R σ Unit) :=
  Moves.get.bind fun _ => (specialMoveXY_touches _ _ _).bind fun _ =>
    synchQueue_quiet.touches.bind fun _ =>
    Moves.get.bind fun _ => (specialMoveXY_touches _ _ _).bind fun _ =>
    Moves.get.bind fun _ => (specialMoveXY_touches _ _ _).bind fun _ =>
    synchQueue_quiet.touches.bind fun _ =>
    setCurrentPosition_touches fun _ => by rfl

theorem zeroY_touches : Touches P (zeroY P : FwM R σ Unit) :=
  Moves.get.bind fun _ => (specialMoveXY_touches _ _ _).bind fun _ =>
    synchQueue_quiet.touches.bind fun _ =>
    Moves.get.bind fun _ => (specialMoveXY_touches _ _ _).bind fun _ =>
    Moves.get.bind fun _ => (specialMoveXY_touches _ _ _).bind fun _ =>
    synchQueue_quiet.touches.bind fun _ =>
    setCurrentPosition_touches fun _ => by rfl

theorem zeroZ_touches : Touches P (zeroZ P : FwM R σ Unit) :=
  Moves.get.bind fun _ => (specialMoveZ_touches _ _).bind fun _ =>
    synchQueue_quiet.touches.bind fun _ =>
    Moves.get.bind fun _ => (specialMoveZ_touches _ _).bind fun _ =>
    synchQueue_quiet.touches.bind fun _ =>
    Moves.get.bind fun _ => (specialMoveZ_touches _ _).bind fun _ =>
    synchQueue_quiet.touches.bind fun _ =>
    setCurrentPosition_touches fun _ => by rfl

/-- Homing all axes is the moves and origins of each of them. -/
theorem homeAll_touches : Touches P (homeAll P : FwM R σ Unit) :=
  Moves.get.bind fun _ => (enqueueMoved_touches _).bind fun _ =>
    zeroX_touches.bind fun _ => zeroY_touches.bind fun _ =>
    zeroZ_touches.bind fun _ => zeroE_quiet.touches

/-- `G28` is the moves and origins of the axes it names. -/
theorem g28_touches (c : GcodeCommand R) :
    Touches P (g28 P c : FwM R σ Unit) :=
  (Moves.when fun _ => zeroX_touches).bind fun _ =>
    (Moves.when fun _ => zeroY_touches).bind fun _ =>
    (Moves.when fun _ => zeroZ_touches).bind fun _ =>
    (Moves.when fun _ => zeroE_quiet.touches).bind fun _ =>
    Moves.when fun _ => homeAll_touches

/-- `G30` is a move and a `G28`. -/
theorem g30_touches (c : GcodeCommand R) :
    Touches P (g30 P c : FwM R σ Unit) :=
  Moves.get.bind fun _ => (enqueueMoved_touches _).bind fun _ => g28_touches c

/-- Priming the extruder is at most one move. -/
theorem m101_touches : Touches P (m101 P : FwM R σ Unit) :=
  (isQuiet_modify fun _ => by rfl).touches.bind fun _ =>
    Moves.get.bind fun _ => Moves.when fun _ => specialMoveE_touches _ _

/-- Reversing the extruder is at most one move. -/
theorem m103_touches : Touches P (m103 P : FwM R σ Unit) :=
  (isQuiet_modify fun _ => by rfl).touches.bind fun _ =>
    Moves.get.bind fun _ => Moves.when fun _ => specialMoveE_touches _ _

/-- `M542` is at most two moves, up and to the place of rest. -/
theorem m542_touches (c : GcodeCommand R) :
    Touches P (m542 P c : FwM R σ Unit) :=
  Moves.get.bind fun _ => Moves.when fun _ =>
    (Moves.when fun _ => enqueueMoved_touches _).bind fun _ =>
    Moves.get.bind fun _ => enqueueMoved_touches _

theorem m551_touches (c : GcodeCommand R) :
    Touches P (m551 P c : FwM R σ Unit) :=
  Moves.when fun _ => specialMoveE_touches _ _

/-! ## Commands -/

/-- The commands that queue moves. -/
def Command.isMotion : Command → Bool
  | .g .g0 | .g .g1 | .g .g28 | .g .g30 => true
  | .m .m101 | .m .m103 | .m .m542 | .m .m551 => true
  | _ => false

/-- The command that changes the scale. -/
def Command.rescales : Command → Bool
  | .m .m200 => true
  | _ => false

/-- The G commands without motion queue no move. -/
theorem processG_quiet (c : GcodeCommand R) {code : GCode}
    (h : (Command.g code).isMotion = false) :
    IsQuiet P (processG P c code : FwM R σ (Outcome R)) := by
  cases code with
  | g0 => simp [Command.isMotion] at h
  | g1 => simp [Command.isMotion] at h
  | g4 => exact (g4_quiet c).return _
  | g20 => exact Moves.pure _
  | g21 => exact Moves.pure _
  | g28 => simp [Command.isMotion] at h
  | g30 => simp [Command.isMotion] at h
  | g90 => exact Moves.pure _
  | g91 => exact Moves.pure _
  | g92 => exact (g92_quiet c).return _

/-- A G command queues moves, waits and sets origins, and does nothing else to the
point. -/
theorem processG_touches (c : GcodeCommand R) (code : GCode) :
    Touches P (processG P c code : FwM R σ (Outcome R)) := by
  by_cases h : (Command.g code).isMotion = false
  · exact (processG_quiet c h).touches
  · cases code with
    | g0 => exact Moves.return (Moves.get.bind fun _ => enqueueMoved_touches _) _
    | g1 => exact Moves.return (Moves.get.bind fun _ => enqueueMoved_touches _) _
    | g28 => exact (g28_touches c).return _
    | g30 => exact (g30_touches c).return _
    | g4 | g20 | g21 | g90 | g91 | g92 => exact absurd rfl h

/-- The M commands without motion queue no move. -/
theorem processM_quiet (c : GcodeCommand R) {code : MCode}
    (h : (Command.m code).isMotion = false)
    (h' : (Command.m code).rescales = false) :
    IsQuiet P (processM P c code : FwM R σ (Outcome R)) := by
  cases code with
  | m20 => exact m20_quiet.return _
  | m21 => exact m21_quiet.return _
  | m22 => exact Moves.return (isQuiet_modify fun _ => by rfl) _
  | m23 => exact (m23_quiet c).return _
  | m24 => exact Moves.return (isQuiet_modify fun _ => by rfl) _
  | m25 => exact Moves.return (isQuiet_modify fun _ => by rfl) _
  | m26 => exact (m26_quiet c).return _
  | m27 => exact m27_quiet.return _
  | m28 => exact (m28_quiet c).return _
  | m101 => simp [Command.isMotion] at h
  | m103 => simp [Command.isMotion] at h
  | m104 => exact (m104_quiet c).return _
  | m105 => exact report_quiet.return _
  | m106 => exact (extruderFan_quiet true).return _
  | m107 => exact (extruderFan_quiet false).return _
  | m108 =>
      exact Moves.return (Moves.when fun _ => isQuiet_modify fun _ => by rfl) _
  | m109 => exact (m109_quiet c).return _
  | m110 => exact Moves.pure _
  | m112 => exact m112_quiet.return _
  | m114 => exact (m114_quiet c).return _
  | m115 => exact (send_quiet _ _).return _
  | m119 => exact Moves.return (Moves.get.bind fun _ => serialWrite_quiet _) _
  | m140 => exact (tempSet_quiet _ _).return _
  | m190 =>
      exact Moves.return
        ((enablePins_quiet false).bind fun _ => isQuiet_modify fun _ => by rfl) _
  | m191 => exact (enablePins_quiet true).return _
  | m200 => simp [Command.rescales] at h'
  | m202 =>
      exact Moves.ite (fun _ => report_quiet.return _)
        fun _ => Moves.return (setConfig_quiet fun _ => by rfl) _
  | m206 =>
      exact Moves.ite (fun _ => report_quiet.return _)
        fun _ => Moves.return (setConfig_quiet fun _ => by rfl) _
  | m227 =>
      exact Moves.return (Moves.when fun _ => isQuiet_modify fun _ => by rfl) _
  | m228 => exact Moves.return (isQuiet_modify fun _ => by rfl) _
  | m229 =>
      exact Moves.return (Moves.when fun _ => isQuiet_modify fun _ => by rfl) _
  | m300 => exact (m300_quiet c).return _
  | m500 => exact tableEntry_quiet _ c
  | m501 => exact tableEntry_quiet _ c
  | m542 => simp [Command.isMotion] at h
  | m551 => simp [Command.isMotion] at h
  | m600 => exact Moves.return (Moves.get.bind fun _ => serialWrite_quiet _) _
  | m29 | m82 | m111 | m113 | m130 | m131 | m132 | m133 | m134 | m141 | m142
  | m543 => exact Moves.pure _

/-- An M command that rescales no axis queues moves and waits, and does nothing else to
the point. -/
theorem processM_touches (c : GcodeCommand R) {code : MCode}
    (h' : (Command.m code).rescales = false) :
    Touches P (processM P c code : FwM R σ (Outcome R)) := by
  by_cases h : (Command.m code).isMotion = false
  · exact (processM_quiet c h h').touches
  · cases code with
    | m101 => exact m101_touches.return _
    | m103 => exact m103_touches.return _
    | m542 => exact (m542_touches c).return _
    | m551 => exact (m551_touches c).return _
    | _ => exact absurd rfl h

/-- A command without motion queues no move. -/
theorem runCommand_quiet {c : GcodeCommand R}
    (h : (commandOf c).isMotion = false)
    (h' : (commandOf c).rescales = false) :
    IsQuiet P (runCommand P c : FwM R σ (Outcome R)) := by
  unfold runCommand
  split
  · next code heq =>
      rw [heq] at h
      exact processG_quiet c h
  · exact (serialWrite_quiet _).return _
  · next code heq =>
      rw [heq] at h h'
      exact processM_quiet c h h'
  · exact (serialWrite_quiet _).return _
  · exact Moves.pure _

theorem runCommand_touches {c : GcodeCommand R}
    (h' : (commandOf c).rescales = false) :
    Touches P (runCommand P c : FwM R σ (Outcome R)) := by
  unfold runCommand
  split
  · next code heq => exact processG_touches c code
  · exact IsQuiet.touches ((serialWrite_quiet _).return _)
  · next code heq =>
      rw [heq] at h'
      exact processM_touches c h'
  · exact IsQuiet.touches ((serialWrite_quiet _).return _)
  · exact Moves.pure _

/-- The reply that ends a command queues nothing. -/
theorem reply_quiet (out : Outcome R) :
    IsQuiet P (do
      when (!out.replySent) (serialWritestr "ok\r\n")
      return out.change : FwM R σ (Change R)) :=
  Moves.return (Moves.when fun _ => serialWrite_quiet _) _

/-- A command without motion queues no move, its acknowledgement included. -/
theorem processGcodeCommand_quiet {c : GcodeCommand R}
    (h : (commandOf c).isMotion = false)
    (h' : (commandOf c).rescales = false) :
    IsQuiet P (processGcodeCommand P c : FwM R σ (Change R)) :=
  (runCommand_quiet h h').bind reply_quiet

/-- A command that rescales no axis queues moves, waits and sets origins, and does
nothing else to the point. -/
theorem processGcodeCommand_touches {c : GcodeCommand R}
    (h' : (commandOf c).rescales = false) :
    Touches P (processGcodeCommand P c : FwM R σ (Change R)) :=
  (runCommand_touches h').bind fun out => (reply_quiet out).touches

/-! ## The scale -/

/-- `M200` sets the scale of the axes named. -/
def rescaled (c : GcodeCommand R) (fw : Firmware R σ) : Firmware R σ :=
  { fw with
    machine :=
      { fw.machine with
        config :=
          { fw.machine.config with
            stepsPerMm := setAxes c id fw.machine.config.stepsPerMm } } }

/-- An `M200` that names no axis rescales nothing. -/
theorem rescaled_of_noAxis {c : GcodeCommand R} (h : noAxis c = true)
    (fw : Firmware R σ) : rescaled c fw = fw := by
  have hall : ∀ a, seenAxis c a = false := by
    intro a
    cases a <;> simp_all [noAxis, seenAxis]
  have hset : setAxes c id fw.machine.config.stepsPerMm =
      fw.machine.config.stepsPerMm := by
    funext a
    show (if seenAxis c a then _ else _) = _
    rw [hall a]
    rfl
  rw [rescaled, hset]

/-- An `M200` changes the scales, and then does nothing more than a command without
motion. -/
theorem processGcodeCommand_rescales {c : GcodeCommand R}
    (h : (commandOf c).rescales = true) (w : World (Firmware R σ) Irq) :
    ReflTransGen (Quiet P) (rescaled c w.state)
      (processGcodeCommand P c w).2.state := by
  have hc : commandOf c = .m .m200 := by
    revert h
    generalize commandOf c = command
    intro h
    cases command with
    | m code => cases code <;> simp [Command.rescales] at h ⊢
    | _ => simp [Command.rescales] at h
  have hrun : runCommand P c = processM P c .m200 := by
    rw [runCommand, hc]
  rw [processGcodeCommand, hrun]
  by_cases haxis : noAxis c = true
  · rw [rescaled_of_noAxis haxis]
    have hquiet : IsQuiet P (processM P c .m200 : FwM R σ (Outcome R)) := by
      show IsQuiet P (if noAxis c = true then _ else _)
      rw [if_pos haxis]
      exact report_quiet.return _
    exact hquiet.bind reply_quiet w
  · have hval : (processM P c .m200 : FwM R σ (Outcome R)) w =
        (some (.changed (parseInitChange (rescaled c w.state))),
          { w with state := rescaled c w.state }) := by
      show (if noAxis c = true then _ else _ : FwM R σ (Outcome R)) w = _
      rw [if_neg haxis]
      rfl
    rw [bind_apply, hval]
    exact reply_quiet _ { w with state := rescaled c w.state }

/-! ## Lines -/

/-- A line for the file queues nothing. -/
theorem writeLine_quiet (c : GcodeCommand R) (data : List UInt8) :
    IsQuiet P (writeLine P c data : FwM R σ Unit) :=
  Moves.ite
    (fun _ => Moves.ite
      (fun _ => (isQuiet_modify fun _ => by rfl).bind fun _ =>
        (isQuiet_modify fun _ => by rfl).bind fun _ => serialWrite_quiet _)
      fun _ => serialWrite_quiet _)
    fun _ => Moves.bind
      (Moves.get.bind fun _ => Moves.return (isQuiet_modify fun _ => by rfl) _)
      fun _ => Moves.ite (fun _ => serialWrite_quiet _)
        fun _ => serialWrite_quiet _

/-- A line that is refused queues nothing. -/
theorem rejectLine_quiet (c : GcodeCommand R) :
    IsQuiet P (rejectLine c : FwM R σ Unit) :=
  serialWrite_quiet _

/-- The checksum decides whether a line is accepted or refused, and the parser starts
afresh behind either. -/
theorem takeLine_eq (s : Session R σ) (data : List UInt8) (irqs : List Irq) :
    takeLine P s data irqs =
      (if checksumAccepted (parsed s data) = true then
        acceptLine P (parsed s data) data >>= fun c =>
          pure (endOfLine { parseChars s.parser data with nextTarget := c })
      else
        rejectLine (parsed s data) >>= fun _ =>
          pure (endOfLine (parseChars s.parser data))) ⟨s.fw, irqs⟩ :=
  rfl

/-- Where a line ends up is decided by its checksum and by whether a file is
being written. -/
theorem takeLine_state (s : Session R σ) (data : List UInt8)
    (irqs : List Irq) :
    (takeLine P s data irqs).2.state =
      if checksumAccepted (parsed s data) then
        if s.fw.sdWritingFile then
          (writeLine P (parsed s data) data ⟨s.fw, irqs⟩).2.state
        else (processGcodeCommand P (parsed s data) ⟨s.fw, irqs⟩).2.state
      else
        (rejectLine (parsed s data) ⟨s.fw, irqs⟩ : Option Unit × _).2.state := by
  rw [takeLine_eq]
  by_cases hsum : checksumAccepted (parsed s data) = true
  · rw [if_pos hsum, if_pos hsum, bind_pure_snd, acceptLine, get_bind_apply]
    split
    · rw [bind_pure_snd]
    · rw [bind_pure_snd]
  · rw [if_neg hsum, if_neg hsum, bind_pure_snd]

section Line

variable {s : Session R σ} {data : List UInt8}

/-- A line without motion queues no move, whatever becomes of it. -/
theorem takeLine_quiet
    (h : Processes s data → (commandOf (parsed s data)).isMotion = false)
    (h' : Processes s data → (commandOf (parsed s data)).rescales = false)
    (irqs : List Irq) :
    ReflTransGen (Quiet P) s.fw (takeLine P s data irqs).2.state := by
  rw [takeLine_state]
  split
  · next hsum =>
    split
    · exact writeLine_quiet (parsed s data) data ⟨s.fw, irqs⟩
    · next hsd =>
      have hproc : Processes s data := ⟨hsum, by simpa using hsd⟩
      exact processGcodeCommand_quiet (h hproc) (h' hproc) ⟨s.fw, irqs⟩
  · exact rejectLine_quiet (parsed s data) ⟨s.fw, irqs⟩

/-- A line that rescales no axis queues moves, waits and sets origins, whatever becomes
of it. -/
theorem takeLine_touch
    (h' : Processes s data → (commandOf (parsed s data)).rescales = false)
    (irqs : List Irq) :
    ReflTransGen (Touch P) s.fw (takeLine P s data irqs).2.state := by
  rw [takeLine_state]
  split
  · next hsum =>
    split
    · exact (writeLine_quiet (parsed s data) data).touches ⟨s.fw, irqs⟩
    · next hsd =>
      exact processGcodeCommand_touches (h' ⟨hsum, by simpa using hsd⟩)
        ⟨s.fw, irqs⟩
  · exact (rejectLine_quiet (parsed s data)).touches ⟨s.fw, irqs⟩

/-- A line that is executed does what its command does. -/
theorem takeLine_processes (h : Processes s data) (irqs : List Irq) :
    (takeLine P s data irqs).2.state =
      (processGcodeCommand P (parsed s data) ⟨s.fw, irqs⟩).2.state := by
  rw [takeLine_state, if_pos h.1, if_neg (by simp [h.2])]

/-- A processed line returns when its command does. -/
theorem takeLine_returns (hproc : Processes s data) {irqs : List Irq}
    {p : Parser R} {w : World (Firmware R σ) Irq}
    (h : takeLine P s data irqs = (some p, w)) :
    ∃ change, processGcodeCommand P (parsed s data) ⟨s.fw, irqs⟩ =
        (some change, w) ∧
      p = endOfLine
        { parseChars s.parser data with
          nextTarget := expectNext (change.apply (parsed s data)) } := by
  rw [takeLine_eq, if_pos hproc.1] at h
  obtain ⟨c, w₁, haccept, hret⟩ := bind_eq_some.1 h
  obtain ⟨hp, rfl⟩ := Prod.mk.inj hret
  rw [acceptLine, get_bind_apply, if_neg (by simp [hproc.2])] at haccept
  obtain ⟨change, w₂, hprocess, hret⟩ := bind_eq_some.1 haccept
  obtain ⟨hc, rfl⟩ := Prod.mk.inj hret
  refine ⟨change, hprocess, ?_⟩
  rw [← Option.some.inj hp, ← Option.some.inj hc]

/-- An `M200` that is executed changes the scales, and then queues nothing. -/
theorem takeLine_rescales (hproc : Processes s data)
    (h : (commandOf (parsed s data)).rescales = true) (irqs : List Irq) :
    ReflTransGen (Quiet P) (rescaled (parsed s data) s.fw)
      (takeLine P s data irqs).2.state := by
  rw [takeLine_processes hproc]
  exact processGcodeCommand_rescales h ⟨s.fw, irqs⟩

/-- What the operations of commands and `M200` keep, every line keeps. -/
theorem takeLine_keep (I : Firmware R σ → Prop)
    (hstep : ∀ fw fw', Touch P fw fw' → I fw → I fw')
    (hscale : ∀ c fw, I fw → I (rescaled c fw)) (irqs : List Irq)
    (h : I s.fw) : I (takeLine P s data irqs).2.state := by
  by_cases hc : Processes s data ∧ (commandOf (parsed s data)).rescales = true
  · exact keep_of_reflTransGen I (takeLine_rescales hc.1 hc.2 irqs)
      (fun fw fw' hq => hstep fw fw' (.quiet hq)) (hscale _ _ h)
  · refine keep_of_reflTransGen I (takeLine_touch ?_ irqs) hstep h
    intro hproc
    by_contra hne
    exact hc ⟨hproc, by simpa using hne⟩

/-- What the quiet operations and `M200` keep, every line without a motion
command keeps. -/
theorem takeLine_keep_quiet (I : Firmware R σ → Prop)
    (hquiet : ∀ fw fw', Quiet P fw fw' → I fw → I fw')
    (hscale : ∀ c fw, I fw → I (rescaled c fw))
    (hno : Processes s data → (commandOf (parsed s data)).isMotion = false)
    (irqs : List Irq) (h : I s.fw) :
    I (takeLine P s data irqs).2.state := by
  by_cases hc : Processes s data ∧ (commandOf (parsed s data)).rescales = true
  · exact keep_of_reflTransGen I (takeLine_rescales hc.1 hc.2 irqs) hquiet
      (hscale _ _ h)
  · refine keep_of_reflTransGen I (takeLine_quiet hno ?_ irqs) hquiet h
    intro hproc
    by_contra hne
    exact hc ⟨hproc, by simpa using hne⟩

end Line

end R2C2Firmware.Ports.GcodeProcess
