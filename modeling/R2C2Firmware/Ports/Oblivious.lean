import R2C2Firmware.Ports.MainLoop

/-!
# What has been sent is not looked at

The model keeps a record of what the firmware has sent and done outside the
machine, and the count of the time-out.  No command looks at them: from two
firmware states that differ in nothing else, a line sends the same, does the
same and leaves such states again.

## Main results

* `processGcodeCommand_ignores` — commands.
* `gcodeParseLine_ignores` — lines.
-/

set_option linter.unusedSectionVars false

namespace R2C2Firmware.Ports.Oblivious

open R2C2Firmware.Verified.Number
open R2C2Firmware.Verified.BusyWait
open R2C2Firmware.Ports.Config
open R2C2Firmware.Ports.MotionPlanner
open R2C2Firmware.Ports.Stepper
open R2C2Firmware.Ports.Temp
open R2C2Firmware.Ports.Sermsg
open R2C2Firmware.Ports.GcodeParse
open R2C2Firmware.Ports.Mendel
open R2C2Firmware.Ports.GcodeProcess
open R2C2Firmware.Ports.MainLoop

variable {R σ : Type}

/-- The firmware with a longer record, and another time-out count. -/
def relog (t : List UInt8) (e : List Effect) (k : Int) (fw : Firmware R σ) :
    Firmware R σ :=
  { fw with
    tx := t ++ fw.tx
    effects := fw.effects ++ e
    steptimeout := k }

/-- The program does not look at the record. -/
abbrev IgnoresLog (t : List UInt8) (e : List Effect) {α : Type}
    (x : FwM R σ α) : Prop :=
  Blind (relog t e) x

variable {t : List UInt8} {e : List Effect}

/-- A pin is written alike, whatever has been logged. -/
theorem digitalWrite_relog (port bit : Nat) (state : Bool) (k : Int)
    (fw : Firmware R σ) :
    digitalWrite port bit state (relog t e k fw) =
      relog t e k (digitalWrite port bit state fw) := by
  unfold digitalWrite
  dsimp only
  split <;> rfl

/-- An interrupt does the same, whatever has been logged. -/
theorem serveIrq_relog (P : Platform σ) (i : Irq) (k : Int)
    (fw : Firmware R σ) :
    serveIrq P i (relog t e k fw) = relog t e k (serveIrq P i fw) := by
  cases i with
  | step =>
      show (if fw.machine.timers.enabled 1 then _ else _) = _
      unfold serveIrq
      dsimp only
      split <;> rfl
  | accel =>
      show (if fw.machine.timers.enabled 0 then _ else _) = _
      unfold serveIrq
      dsimp only
      split <;> rfl
  | temperature extruder bed =>
      show temperatureTimerCallback extruder bed _ =
        relog t e k (temperatureTimerCallback extruder bed fw)
      unfold temperatureTimerCallback
      rw [show (relog t e k fw).temp = fw.temp from rfl]
      dsimp only
      split
      · rfl
      · rw [← digitalWrite_relog, ← digitalWrite_relog]
        rfl
  | buzzerOff => rfl
  | endstops x y z => rfl

/-- A change that commutes with replacing the record ignores the record. -/
theorem ignores_modify {f : Firmware R σ → Firmware R σ}
    (h : ∀ k fw, f (relog t e k fw) = relog t e k (f fw)) :
    IgnoresLog t e (modify f : FwM R σ Unit) :=
  Blind.modify fun k fw => ⟨k, h k fw⟩

/-- Waiting for something that is no log takes as many interrupts, whatever has been
logged. -/
theorem ignores_spinUntil (P : Platform σ) {cond : Firmware R σ → Bool}
    (h : ∀ k fw, cond (relog t e k fw) = cond fw) :
    IgnoresLog t e (spinUntil (serveIrq P) cond : FwM R σ Unit) :=
  Blind.spinUntil (fun i k fw => ⟨k, serveIrq_relog P i k fw⟩) h

/-- A text goes behind what has been sent, whatever that is. -/
theorem serialWrite_ignores (text : List UInt8) :
    IgnoresLog t e (serialWrite text : FwM R σ Unit) := by
  refine ignores_modify fun k fw => ?_
  show { relog t e k fw with tx := t ++ fw.tx ++ text } = _
  rw [List.append_assoc]
  rfl

/-- A delay goes on top of the effects so far, whatever they are. -/
theorem delayMs_ignores (ms : Int) :
    IgnoresLog t e (delayMs ms : FwM R σ Unit) :=
  ignores_modify fun _ _ => rfl

theorem buzzerPlay_ignores (frequency duration : Int) :
    IgnoresLog t e (buzzerPlay frequency duration : FwM R σ Unit) :=
  ignores_modify fun _ _ => rfl

/-- `temp_set` sets the time-out back, unless the target is zero. -/
theorem tempSet_ignores (temp : Int) (sensor : Sensor) :
    IgnoresLog t e (tempSet temp sensor : FwM R σ Unit) :=
  Blind.modify fun k _ => ⟨if temp ≠ 0 then 0 else k, rfl⟩

theorem setConfig_ignores (f : Configuration R → Configuration R) :
    IgnoresLog t e (setConfig f : FwM R σ Unit) :=
  ignores_modify fun _ _ => rfl

theorem onPlanner_ignores (f : Configuration R → Planner R → Planner R) :
    IgnoresLog t e (onPlanner f : FwM R σ Unit) :=
  ignores_modify fun _ _ => rfl

theorem enablePins_ignores (disabled : Bool) :
    IgnoresLog t e (enablePins disabled : FwM R σ Unit) := by
  refine ignores_modify fun k fw => ?_
  rw [digitalWrite_relog, digitalWrite_relog, digitalWrite_relog,
    digitalWrite_relog]

section Handlers

variable [Field R] [LinearOrder R] [HasSqrt R] [FloorRing R] [HasDouble R]
  {P : Platform σ}

/-! ## Motion -/

/-- Queueing a request ignores the log, also when it has to wait for room. -/
theorem planBufferActionWait_ignores (request : ActionRequest R) :
    IgnoresLog t e (planBufferActionWait P request : FwM R σ Unit) :=
  (ignores_spinUntil P fun _ _ => rfl).bind fun _ =>
    ignores_modify fun _ _ => rfl

/-- A move ignores the log, whether it is queued or only sets the feed rate. -/
theorem enqueueMoved_ignores (target : Target R) :
    IgnoresLog t e (enqueueMoved P target : FwM R σ Unit) :=
  Blind.get_bind
    (fun _ => Blind.ite (planBufferActionWait_ignores _)
      (onPlanner_ignores _))
    fun _ _ => rfl

theorem specialMoveE_ignores (x f : R) :
    IgnoresLog t e (specialMoveE P x f : FwM R σ Unit) :=
  Blind.get_bind
    (fun _ => Blind.ite (enqueueMoved_ignores _) (Blind.pure _))
    fun _ _ => rfl

theorem specialMoveXY_ignores (x y f : R) :
    IgnoresLog t e (specialMoveXY P x y f : FwM R σ Unit) :=
  Blind.get_bind (fun _ => planBufferActionWait_ignores _) fun _ _ => rfl

theorem specialMoveZ_ignores (z f : R) :
    IgnoresLog t e (specialMoveZ P z f : FwM R σ Unit) :=
  Blind.get_bind (fun _ => planBufferActionWait_ignores _) fun _ _ => rfl

/-- An origin that does not depend on the log is set alike. -/
theorem setPosition_ignores {f : Firmware R σ → Target R}
    (h : ∀ k fw, f (relog t e k fw) = f fw) :
    IgnoresLog t e (do let fw ← get; setCurrentPosition (f fw) : FwM R σ Unit) :=
  Blind.get_bind (fun _ => onPlanner_ignores _) fun k fw => by rw [h]

theorem synchQueue_ignores : IgnoresLog t e (synchQueue P : FwM R σ Unit) :=
  ignores_spinUntil P fun _ _ => rfl

/-- Homing an axis ignores the log. -/
theorem zeroX_ignores : IgnoresLog t e (zeroX P : FwM R σ Unit) :=
  Blind.get_bind (fun _ => (specialMoveXY_ignores _ _ _).bind fun _ =>
    synchQueue_ignores.bind fun _ =>
    Blind.get_bind (fun _ => (specialMoveXY_ignores _ _ _).bind fun _ =>
    Blind.get_bind (fun _ => (specialMoveXY_ignores _ _ _).bind fun _ =>
    synchQueue_ignores.bind fun _ => setPosition_ignores fun _ _ => rfl)
      fun _ _ => rfl) fun _ _ => rfl) fun _ _ => rfl

theorem zeroY_ignores : IgnoresLog t e (zeroY P : FwM R σ Unit) :=
  Blind.get_bind (fun _ => (specialMoveXY_ignores _ _ _).bind fun _ =>
    synchQueue_ignores.bind fun _ =>
    Blind.get_bind (fun _ => (specialMoveXY_ignores _ _ _).bind fun _ =>
    Blind.get_bind (fun _ => (specialMoveXY_ignores _ _ _).bind fun _ =>
    synchQueue_ignores.bind fun _ => setPosition_ignores fun _ _ => rfl)
      fun _ _ => rfl) fun _ _ => rfl) fun _ _ => rfl

theorem zeroZ_ignores : IgnoresLog t e (zeroZ P : FwM R σ Unit) :=
  Blind.get_bind (fun _ => (specialMoveZ_ignores _ _).bind fun _ =>
    synchQueue_ignores.bind fun _ =>
    Blind.get_bind (fun _ => (specialMoveZ_ignores _ _).bind fun _ =>
    synchQueue_ignores.bind fun _ =>
    Blind.get_bind (fun _ => (specialMoveZ_ignores _ _).bind fun _ =>
    synchQueue_ignores.bind fun _ => setPosition_ignores fun _ _ => rfl)
      fun _ _ => rfl) fun _ _ => rfl) fun _ _ => rfl

theorem zeroE_ignores : IgnoresLog t e (zeroE : FwM R σ Unit) :=
  setPosition_ignores fun _ _ => rfl

theorem homeAll_ignores : IgnoresLog t e (homeAll P : FwM R σ Unit) :=
  Blind.get_bind (fun _ => (enqueueMoved_ignores _).bind fun _ =>
    zeroX_ignores.bind fun _ => zeroY_ignores.bind fun _ =>
    zeroZ_ignores.bind fun _ => zeroE_ignores) fun _ _ => rfl

/-- `G28` ignores the log, whichever axes it names. -/
theorem g28_ignores (c : GcodeCommand R) :
    IgnoresLog t e (g28 P c : FwM R σ Unit) :=
  (Blind.when zeroX_ignores).bind fun _ =>
    (Blind.when zeroY_ignores).bind fun _ =>
    (Blind.when zeroZ_ignores).bind fun _ =>
    (Blind.when zeroE_ignores).bind fun _ => Blind.when homeAll_ignores

theorem g0_ignores (c : GcodeCommand R) :
    IgnoresLog t e (g0 P c : FwM R σ Unit) :=
  Blind.get_bind (fun _ => enqueueMoved_ignores _) fun _ _ => rfl

theorem g1_ignores (c : GcodeCommand R) :
    IgnoresLog t e (g1 P c : FwM R σ Unit) :=
  Blind.get_bind (fun _ => enqueueMoved_ignores _) fun _ _ => rfl

theorem g30_ignores (c : GcodeCommand R) :
    IgnoresLog t e (g30 P c : FwM R σ Unit) :=
  Blind.get_bind
    (fun _ => (enqueueMoved_ignores _).bind fun _ => g28_ignores c)
    fun _ _ => rfl

/-- No G command looks at the log. -/
theorem processG_ignores (c : GcodeCommand R) (code : GCode) :
    IgnoresLog t e (processG P c code : FwM R σ (Outcome R)) := by
  cases code with
  | g0 => exact (g0_ignores c).return _
  | g1 => exact (g1_ignores c).return _
  | g4 =>
      exact Blind.return (synchQueue_ignores.bind fun _ =>
        delayMs_ignores _) _
  | g20 | g21 | g90 | g91 => exact Blind.pure _
  | g28 => exact (g28_ignores c).return _
  | g30 => exact (g30_ignores c).return _
  | g92 =>
      exact Blind.return (synchQueue_ignores.bind fun _ =>
        setPosition_ignores fun _ _ => rfl) _

/-! ## M-codes -/

/-- A report ignores the log if its text does. -/
theorem report_ignores {f : Firmware R σ → List UInt8}
    (h : ∀ k fw, f (relog t e k fw) = f fw) :
    IgnoresLog t e (do let fw ← get; serialWrite (f fw) : FwM R σ Unit) :=
  Blind.get_bind (fun _ => serialWrite_ignores _) fun k fw => by rw [h]

theorem m20_ignores : IgnoresLog t e (m20 P : FwM R σ Unit) :=
  (serialWrite_ignores _).bind fun _ =>
    (report_ignores fun _ _ => rfl).bind fun _ => serialWrite_ignores _

theorem m21_ignores : IgnoresLog t e (m21 : FwM R σ Unit) :=
  (ignores_modify fun _ _ => rfl).bind fun _ => ignores_modify fun _ _ => rfl

/-- Opening a file ignores the log. -/
theorem sdOpen_ignores (path : List UInt8) (write : Bool) :
    IgnoresLog t e (sdOpen P path write : FwM R σ Bool) :=
  Blind.get_bind
    (fun _ => (ignores_modify fun _ _ => rfl).bind fun _ =>
      Blind.ite (Blind.pure _) ((serialWrite_ignores _).return _))
    fun _ _ => rfl

/-- Selecting a file ignores the log. -/
theorem m23_ignores (c : GcodeCommand R) :
    IgnoresLog t e (m23 P c : FwM R σ Unit) :=
  (ignores_modify fun _ _ => rfl).bind fun _ =>
    (ignores_modify fun _ _ => rfl).bind fun _ =>
    (ignores_modify fun _ _ => rfl).bind fun _ =>
    (sdOpen_ignores _ _).bind fun _ =>
    Blind.ite
      ((ignores_modify fun _ _ => rfl).bind fun _ =>
        Blind.get_bind
          (fun _ => (serialWrite_ignores _).bind fun _ =>
            (ignores_modify fun _ _ => rfl).bind fun _ =>
            serialWrite_ignores _)
          fun _ _ => rfl)
      (serialWrite_ignores _)

theorem m26_ignores (c : GcodeCommand R) :
    IgnoresLog t e (m26 P c : FwM R σ Unit) := by
  refine ignores_modify fun k fw => ?_
  show (if fw.sdActive && c.seenS then _ else _) = _
  split <;> rfl

theorem m27_ignores : IgnoresLog t e (m27 : FwM R σ Unit) :=
  Blind.get_bind
    (fun _ => Blind.ite (serialWrite_ignores _) (serialWrite_ignores _))
    fun _ _ => rfl

/-- Starting an upload ignores the log. -/
theorem m28_ignores (c : GcodeCommand R) :
    IgnoresLog t e (m28 P c : FwM R σ Unit) :=
  (ignores_modify fun _ _ => rfl).bind fun _ =>
    (ignores_modify fun _ _ => rfl).bind fun _ =>
    (ignores_modify fun _ _ => rfl).bind fun _ =>
    (sdOpen_ignores _ _).bind fun _ =>
    Blind.ite
      ((ignores_modify fun _ _ => rfl).bind fun _ => serialWrite_ignores _)
      (serialWrite_ignores _)

theorem m101_ignores : IgnoresLog t e (m101 P : FwM R σ Unit) :=
  (ignores_modify fun _ _ => rfl).bind fun _ =>
    Blind.get_bind (fun _ => Blind.when (specialMoveE_ignores _ _))
      fun _ _ => rfl

theorem m103_ignores : IgnoresLog t e (m103 P : FwM R σ Unit) :=
  (ignores_modify fun _ _ => rfl).bind fun _ =>
    Blind.get_bind (fun _ => Blind.when (specialMoveE_ignores _ _))
      fun _ _ => rfl

theorem m104_ignores (c : GcodeCommand R) :
    IgnoresLog t e (m104 P c : FwM R σ Unit) :=
  Blind.get_bind
    (fun _ => Blind.when ((tempSet_ignores _ _).bind fun _ =>
      Blind.when (planBufferActionWait_ignores _)))
    fun _ _ => rfl

theorem m109_ignores (c : GcodeCommand R) :
    IgnoresLog t e (m109 P c : FwM R σ Unit) :=
  Blind.get_bind
    (fun _ => Blind.when ((tempSet_ignores _ _).bind fun _ =>
      planBufferActionWait_ignores _))
    fun _ _ => rfl

theorem tempPrint_ignores : IgnoresLog t e (tempPrint : FwM R σ Unit) :=
  report_ignores fun _ _ => rfl

theorem m108_ignores (c : GcodeCommand R) :
    IgnoresLog t e (m108 c : FwM R σ Unit) :=
  Blind.when (ignores_modify fun _ _ => rfl)

/-- A report of the position ignores what has been sent before it. -/
theorem m114_ignores (c : GcodeCommand R) :
    IgnoresLog t e (m114 c : FwM R σ Unit) :=
  Blind.get_bind (fun _ => Blind.when (serialWrite_ignores _)) fun _ _ => rfl

theorem m119_ignores : IgnoresLog t e (m119 : FwM R σ Unit) :=
  report_ignores fun _ _ => rfl

theorem extruderFan_ignores (on : Bool) :
    IgnoresLog t e (extruderFan on : FwM R σ Unit) :=
  ignores_modify fun k fw => digitalWrite_relog _ _ _ k fw

/-- `M190` sets the time-out back. -/
theorem m190_ignores : IgnoresLog t e (m190 : FwM R σ Unit) :=
  (enablePins_ignores false).bind fun _ => Blind.modify fun _ _ => ⟨0, rfl⟩

/-- A setting of the extruder is computed from what is no log. -/
theorem setAutoPrime_ignores (c : GcodeCommand R) {unit : Firmware R σ → Int}
    (h : ∀ k fw, unit (relog t e k fw) = unit fw) :
    IgnoresLog t e (setAutoPrime c unit : FwM R σ Unit) := by
  refine Blind.when (ignores_modify fun k fw => ?_)
  rw [h]
  rfl

theorem m300_ignores (c : GcodeCommand R) :
    IgnoresLog t e (m300 P c : FwM R σ Unit) :=
  (ignores_spinUntil P fun _ _ => rfl).bind fun _ => buzzerPlay_ignores _ _

theorem tableEntry_ignores (sensor : Sensor) (c : GcodeCommand R) :
    IgnoresLog t e (tableEntry sensor c : FwM R σ (Outcome R)) :=
  Blind.ite (Blind.return (ignores_modify fun _ _ => rfl) _)
    (Blind.ite
      (Blind.get_bind (fun _ => (serialWrite_ignores _).return _)
        fun _ _ => rfl)
      ((serialWrite_ignores _).return _))

theorem m542_ignores (c : GcodeCommand R) :
    IgnoresLog t e (m542 P c : FwM R σ Unit) :=
  Blind.get_bind
    (fun _ => Blind.when ((Blind.when (enqueueMoved_ignores _)).bind fun _ =>
      Blind.get_bind (fun _ => enqueueMoved_ignores _) fun _ _ => rfl))
    fun _ _ => rfl

theorem m551_ignores (c : GcodeCommand R) :
    IgnoresLog t e (m551 P c : FwM R σ Unit) :=
  Blind.when (specialMoveE_ignores _ _)

/-- A report of the settings ignores what has been sent before it. -/
theorem printConfig_ignores : IgnoresLog t e (printConfig : FwM R σ Unit) :=
  report_ignores fun _ _ => rfl

/-- No M command looks at the log. -/
theorem processM_ignores (c : GcodeCommand R) (code : MCode) :
    IgnoresLog t e (processM P c code : FwM R σ (Outcome R)) := by
  cases code with
  | m20 => exact m20_ignores.return _
  | m21 => exact m21_ignores.return _
  | m22 | m24 | m25 | m112 | m228 =>
      exact Blind.return (ignores_modify fun _ _ => rfl) _
  | m23 => exact (m23_ignores c).return _
  | m26 => exact (m26_ignores c).return _
  | m27 => exact m27_ignores.return _
  | m28 => exact (m28_ignores c).return _
  | m101 => exact m101_ignores.return _
  | m103 => exact m103_ignores.return _
  | m104 => exact (m104_ignores c).return _
  | m105 => exact tempPrint_ignores.return _
  | m106 | m107 => exact (extruderFan_ignores _).return _
  | m108 => exact (m108_ignores c).return _
  | m109 => exact (m109_ignores c).return _
  | m114 => exact (m114_ignores c).return _
  | m115 => exact (serialWrite_ignores _).return _
  | m119 => exact m119_ignores.return _
  | m140 => exact (tempSet_ignores _ _).return _
  | m190 => exact m190_ignores.return _
  | m191 => exact (enablePins_ignores true).return _
  | m200 =>
      exact Blind.ite (Blind.return (report_ignores fun _ _ => rfl) _)
        ((setConfig_ignores _).bind fun _ =>
          Blind.get_bind (fun _ => Blind.pure _) fun _ _ => rfl)
  | m202 | m206 =>
      exact Blind.ite (Blind.return (report_ignores fun _ _ => rfl) _)
        (Blind.return (setConfig_ignores _) _)
  | m227 | m229 => exact (setAutoPrime_ignores c fun _ _ => rfl).return _
  | m300 => exact (m300_ignores c).return _
  | m500 | m501 => exact tableEntry_ignores _ c
  | m542 => exact (m542_ignores c).return _
  | m551 => exact (m551_ignores c).return _
  | m600 => exact printConfig_ignores.return _
  | m29 | m82 | m110 | m111 | m113 | m130 | m131 | m132 | m133 | m134 | m141
  | m142 | m543 => exact Blind.pure _

/-! ## Lines -/

theorem runCommand_ignores (c : GcodeCommand R) :
    IgnoresLog t e (runCommand P c : FwM R σ (Outcome R)) := by
  unfold runCommand
  split
  · exact processG_ignores c _
  · exact (serialWrite_ignores _).return _
  · exact processM_ignores c _
  · exact (serialWrite_ignores _).return _
  · exact Blind.pure _

/-- No command looks at the log, its acknowledgement included. -/
theorem processGcodeCommand_ignores (c : GcodeCommand R) :
    IgnoresLog t e (processGcodeCommand P c : FwM R σ (Change R)) :=
  (runCommand_ignores c).bind fun _ =>
    (Blind.when (serialWrite_ignores _)).return _

/-- A line is stored alike, whatever has been logged. -/
theorem writeLine_ignores (c : GcodeCommand R) (data : List UInt8) :
    IgnoresLog t e (writeLine P c data : FwM R σ Unit) :=
  Blind.ite
    (Blind.ite
      ((ignores_modify fun _ _ => rfl).bind fun _ =>
        (ignores_modify fun _ _ => rfl).bind fun _ => serialWrite_ignores _)
      (serialWrite_ignores _))
    (Blind.bind
      (Blind.get_bind (fun _ => Blind.return (ignores_modify fun _ _ => rfl) _)
        fun _ _ => rfl)
      fun _ => Blind.ite (serialWrite_ignores _) (serialWrite_ignores _))

/-- What becomes of a line does not depend on the log. -/
theorem acceptLine_ignores (c : GcodeCommand R) (data : List UInt8) :
    IgnoresLog t e (acceptLine P c data : FwM R σ (GcodeCommand R)) :=
  Blind.get_bind
    (fun _ => Blind.ite ((writeLine_ignores c data).return _)
      ((processGcodeCommand_ignores c).bind fun _ => Blind.pure _))
    fun _ _ => rfl

/-- A line does not look at what has been sent before. -/
theorem gcodeParseLine_ignores (p : Parser R) (data : List UInt8) :
    IgnoresLog t e (gcodeParseLine P p data : FwM R σ (Parser R)) :=
  Blind.ite ((acceptLine_ignores _ data).bind fun _ => Blind.pure _)
    ((serialWrite_ignores _).bind fun _ => Blind.pure _)

end Handlers

end R2C2Firmware.Ports.Oblivious
