import R2C2Firmware.Ports.GcodeEffects

/-!
# What the commands leave alone

Any command may send text, note an effect, change the current point, a pin or a
timer, and what is set for the extruder or in the temperature table.  Only the
commands of motion and the two that wait for a temperature put something into
the queue, only those of the card change what belongs to the card, only those of
the heaters the temperatures they are to reach, and only three the
configuration.

So a relation between firmware states that has nothing to do with the former is
respected by every command, except perhaps by those that do the latter.

## Main results

* `Frame.processGcodeCommand` — the commands.
* `Frame.takeLine` — a line, whatever becomes of it.
-/

set_option linter.unusedSectionVars false

namespace R2C2Firmware.Ports.GcodeProcess

open R2C2Firmware.Verified.Number
open R2C2Firmware.Verified.BusyWait
open R2C2Firmware.Ports.Config
open R2C2Firmware.Ports.MotionPlanner
open R2C2Firmware.Ports.Stepper
open R2C2Firmware.Ports.Temp
open R2C2Firmware.Ports.Sermsg
open R2C2Firmware.Ports.GcodeParse
open R2C2Firmware.Ports.Mendel
open R2C2Firmware.Ports.MainLoop

variable {R σ : Type}

/-- The commands that change something about the card. -/
def Command.usesCard : Command → Bool
  | .m .m21 | .m .m22 | .m .m23 | .m .m24 | .m .m25 | .m .m26 | .m .m28 => true
  | _ => false

/-- The commands that set a temperature to be reached. -/
def Command.heats : Command → Bool
  | .m .m104 | .m .m109 | .m .m140 => true
  | _ => false

/-- The commands that change the configuration. -/
def Command.configures : Command → Bool
  | .m .m200 | .m .m202 | .m .m206 => true
  | _ => false

/-- The commands that put something into the queue. -/
def Command.queues : Command → Bool
  | .g .g0 | .g .g1 | .g .g28 | .g .g30 => true
  | .m .m101 | .m .m103 | .m .m104 | .m .m109 | .m .m542 | .m .m551 => true
  | _ => false

/-- Configuration and queue are the same. -/
structure SamePlan (m m' : Machine R) : Prop where
  config : m'.config = m.config
  blocks : m'.planner.blockBuffer = m.planner.blockBuffer
  head : m'.planner.blockBufferHead = m.planner.blockBufferHead
  tail : m'.planner.blockBufferTail = m.planner.blockBufferTail
  enabled : m'.planner.accelerationManagerEnabled =
    m.planner.accelerationManagerEnabled

/-- A relation that all operations respect but those of the queue, the card, the
heaters and the configuration. -/
structure Frame (P : Platform σ) (r : Firmware R σ → Firmware R σ → Prop) :
    Prop where
  irq : ∀ i fw, r fw (serveIrq P i fw)
  machine : ∀ m fw, SamePlan fw.machine m → r fw { fw with machine := m }
  text : ∀ text fw, r fw { fw with tx := fw.tx ++ text }
  effect : ∀ e running fw,
    r fw { fw with effects := e :: fw.effects, buzzerRunning := running }
  extruder : ∀ on speed prime reverse fw,
    r fw
      { fw with
        extrudersOn := on
        extruder1Speed := speed
        autoPrimeSteps := prime
        autoReverseSteps := reverse }
  table : ∀ sensor temp adcVal fw,
    r fw { fw with temp := tempSetTableEntry sensor temp adcVal fw.temp }
  timeout : ∀ k fw, r fw { fw with steptimeout := k }

/-- Putting something into the queue, when there is room. -/
def QueueFrame [Field R] [LinearOrder R] [HasSqrt R] [FloorRing R]
    (r : Firmware R σ → Firmware R σ → Prop) : Prop :=
  ∀ request fw, planQueueFull fw.machine.planner = false →
    r fw { fw with machine := bufferAction request fw.machine }

/-- The operations of the card. -/
def CardFrame (r : Firmware R σ → Firmware R σ → Prop) : Prop :=
  ∀ fs filesize sdPos sdPrinting sdActive sdWritingFile fw,
    r fw { fw with fs, filesize, sdPos, sdPrinting, sdActive, sdWritingFile }

/-- Setting a heater to a temperature. -/
def HeatFrame (r : Firmware R σ → Firmware R σ → Prop) (t : Int) : Prop :=
  ∀ sensor fw, r fw { fw with temp := setTarget t sensor fw.temp }

/-- Changing the configuration. -/
def SettingsFrame (r : Firmware R σ → Firmware R σ → Prop) : Prop :=
  ∀ (f : Configuration R → Configuration R) fw,
    r fw { fw with machine := { fw.machine with config := f fw.machine.config } }

section Handlers

variable [Field R] [LinearOrder R] [HasSqrt R] [FloorRing R]
  {P : Platform σ} {r : Firmware R σ → Firmware R σ → Prop}
  [IsPreorder (Firmware R σ) r]

namespace Frame

theorem spinUntil (h : Frame P r) (cond : Firmware R σ → Bool) :
    Moves r (spinUntil (serveIrq P) cond : FwM R σ Unit) :=
  Moves.spinUntil h.irq cond

theorem serialWrite (h : Frame P r) (text : List UInt8) :
    Moves r (serialWrite text : FwM R σ Unit) :=
  Moves.modify fun fw => h.text text fw

/-- A report. -/
theorem report (h : Frame P r) {f : Firmware R σ → List UInt8} :
    Moves r (do let fw ← get; Mendel.serialWrite (f fw) : FwM R σ Unit) :=
  Moves.get.bind fun _ => h.serialWrite _

theorem setFeedRate (h : Frame P r) (t : Target R) :
    Moves r (onPlanner (fun _ => planSetFeedRate t) : FwM R σ Unit) :=
  Moves.modify fun fw => h.machine _ fw ⟨rfl, rfl, rfl, rfl, rfl⟩

theorem setCurrentPosition (h : Frame P r) (t : Target R) :
    Moves r (setCurrentPosition t : FwM R σ Unit) :=
  Moves.modify fun fw => h.machine _ fw ⟨rfl, rfl, rfl, rfl, rfl⟩

theorem setConfig (hset : SettingsFrame r)
    (f : Configuration R → Configuration R) :
    Moves r (setConfig f : FwM R σ Unit) :=
  Moves.modify fun fw => hset f fw

theorem digitalWrite (h : Frame P r) (port bit : Nat) (state : Bool)
    (fw : Firmware R σ) : r fw (digitalWrite port bit state fw) :=
  h.machine _ fw ⟨rfl, rfl, rfl, rfl, rfl⟩

theorem enablePins (h : Frame P r) (disabled : Bool) :
    Moves r (enablePins disabled : FwM R σ Unit) :=
  Moves.modify fun fw => trans_of r
    (trans_of r
      (trans_of r (h.digitalWrite 1 24 disabled fw) (h.digitalWrite _ _ _ _))
      (h.digitalWrite _ _ _ _))
    (h.digitalWrite _ _ _ _)

theorem setPosition (h : Frame P r) (f : Firmware R σ → Target R) :
    Moves r (do
      let fw ← get; Mendel.setCurrentPosition (f fw) : FwM R σ Unit) :=
  Moves.get.bind fun _ => h.setCurrentPosition _

theorem synchQueue (h : Frame P r) : Moves r (synchQueue P : FwM R σ Unit) :=
  h.spinUntil _

theorem delayMs (h : Frame P r) (ms : Int) :
    Moves r (delayMs ms : FwM R σ Unit) :=
  Moves.modify fun fw => h.effect _ fw.buzzerRunning fw

section Queue

variable (hqueue : QueueFrame r)
include hqueue

theorem planBufferActionWait (h : Frame P r) (request : ActionRequest R) :
    Moves r (planBufferActionWait P request : FwM R σ Unit) :=
  Moves.spinUntil_modify h.irq fun fw hroom =>
    hqueue request fw (by simpa using hroom)

theorem enqueueMoved (h : Frame P r) (t : Target R) :
    Moves r (enqueueMoved P t : FwM R σ Unit) :=
  Moves.get.bind fun _ =>
    Moves.ite (fun _ => h.planBufferActionWait hqueue _) fun _ => h.setFeedRate t

theorem specialMoveE (h : Frame P r) (e f : R) :
    Moves r (specialMoveE P e f : FwM R σ Unit) :=
  Moves.get.bind fun _ =>
    Moves.ite (fun _ => h.enqueueMoved hqueue _) fun _ => Moves.pure _

theorem specialMoveXY (h : Frame P r) (x y f : R) :
    Moves r (specialMoveXY P x y f : FwM R σ Unit) :=
  Moves.get.bind fun _ => h.planBufferActionWait hqueue _

theorem specialMoveZ (h : Frame P r) (z f : R) :
    Moves r (specialMoveZ P z f : FwM R σ Unit) :=
  Moves.get.bind fun _ => h.planBufferActionWait hqueue _

theorem zeroX (h : Frame P r) : Moves r (zeroX P : FwM R σ Unit) :=
  Moves.get.bind fun _ => (h.specialMoveXY hqueue _ _ _).bind fun _ =>
    h.synchQueue.bind fun _ =>
    Moves.get.bind fun _ => (h.specialMoveXY hqueue _ _ _).bind fun _ =>
    Moves.get.bind fun _ => (h.specialMoveXY hqueue _ _ _).bind fun _ =>
    h.synchQueue.bind fun _ => h.setPosition _

theorem zeroY (h : Frame P r) : Moves r (zeroY P : FwM R σ Unit) :=
  Moves.get.bind fun _ => (h.specialMoveXY hqueue _ _ _).bind fun _ =>
    h.synchQueue.bind fun _ =>
    Moves.get.bind fun _ => (h.specialMoveXY hqueue _ _ _).bind fun _ =>
    Moves.get.bind fun _ => (h.specialMoveXY hqueue _ _ _).bind fun _ =>
    h.synchQueue.bind fun _ => h.setPosition _

theorem zeroZ (h : Frame P r) : Moves r (zeroZ P : FwM R σ Unit) :=
  Moves.get.bind fun _ => (h.specialMoveZ hqueue _ _).bind fun _ =>
    h.synchQueue.bind fun _ =>
    Moves.get.bind fun _ => (h.specialMoveZ hqueue _ _).bind fun _ =>
    h.synchQueue.bind fun _ =>
    Moves.get.bind fun _ => (h.specialMoveZ hqueue _ _).bind fun _ =>
    h.synchQueue.bind fun _ => h.setPosition _

theorem homeAll (h : Frame P r) : Moves r (homeAll P : FwM R σ Unit) :=
  Moves.get.bind fun _ => (h.enqueueMoved hqueue _).bind fun _ =>
    (h.zeroX hqueue).bind fun _ => (h.zeroY hqueue).bind fun _ =>
    (h.zeroZ hqueue).bind fun _ => h.setPosition _

theorem g28 (h : Frame P r) (c : GcodeCommand R) :
    Moves r (g28 P c : FwM R σ Unit) :=
  (Moves.when fun _ => h.zeroX hqueue).bind fun _ =>
    (Moves.when fun _ => h.zeroY hqueue).bind fun _ =>
    (Moves.when fun _ => h.zeroZ hqueue).bind fun _ =>
    (Moves.when fun _ => h.setPosition _).bind fun _ =>
    Moves.when fun _ => h.homeAll hqueue

end Queue

theorem processG (h : Frame P r) (c : GcodeCommand R) {code : GCode}
    (hqueue : Command.queues (.g code) = true → QueueFrame r) :
    Moves r (processG P c code : FwM R σ (Outcome R)) := by
  cases code with
  | g0 | g1 =>
      exact Moves.return
        (Moves.get.bind fun _ => h.enqueueMoved (hqueue rfl) _) _
  | g4 =>
      exact Moves.return (h.synchQueue.bind fun _ => h.delayMs c.p) _
  | g20 | g21 | g90 | g91 => exact Moves.pure _
  | g28 => exact (h.g28 (hqueue rfl) c).return _
  | g30 =>
      exact Moves.return (Moves.get.bind fun _ =>
        (h.enqueueMoved (hqueue rfl) _).bind fun _ => h.g28 (hqueue rfl) c) _
  | g92 =>
      exact Moves.return (h.synchQueue.bind fun _ => h.setPosition _) _

theorem m112 (h : Frame P r) : Moves r (m112 : FwM R σ Unit) :=
  Moves.modify fun fw => h.machine _ fw ⟨rfl, rfl, rfl, rfl, rfl⟩

theorem tableEntry (h : Frame P r) (sensor : Sensor) (c : GcodeCommand R) :
    Moves r (tableEntry sensor c : FwM R σ (Outcome R)) :=
  Moves.ite (fun _ => (Moves.modify fun fw => h.table _ _ _ fw).return _)
    fun _ => Moves.ite
      (fun _ => Moves.get.bind fun _ => (h.serialWrite _).return _)
      fun _ => (h.serialWrite _).return _

/-- A change of what belongs to the card. -/
theorem cardOp (hcard : CardFrame r) {f : Firmware R σ → Firmware R σ}
    (hf : ∀ fw, f fw =
      { fw with
        fs := (f fw).fs
        filesize := (f fw).filesize
        sdPos := (f fw).sdPos
        sdPrinting := (f fw).sdPrinting
        sdActive := (f fw).sdActive
        sdWritingFile := (f fw).sdWritingFile }) :
    Moves r (modify f : FwM R σ Unit) :=
  Moves.modify fun fw => by
    rw [hf fw]
    exact hcard _ _ _ _ _ _ fw

theorem sdOpen (h : Frame P r) (hcard : CardFrame r) (path : List UInt8)
    (write : Bool) : Moves r (sdOpen P path write : FwM R σ Bool) :=
  Moves.get.bind fun _ => (cardOp hcard fun _ => by rfl).bind fun _ =>
    Moves.ite (fun _ => Moves.pure _) fun _ => (h.serialWrite _).return _

theorem m23 (h : Frame P r) (hcard : CardFrame r) (c : GcodeCommand R) :
    Moves r (m23 P c : FwM R σ Unit) :=
  (cardOp hcard fun _ => by rfl).bind fun _ =>
    (cardOp hcard fun _ => by rfl).bind fun _ =>
    (cardOp hcard fun _ => by rfl).bind fun _ =>
    (h.sdOpen hcard _ _).bind fun _ =>
      Moves.ite
        (fun _ => (cardOp hcard fun _ => by rfl).bind fun _ =>
          Moves.get.bind fun _ => (h.serialWrite _).bind fun _ =>
          (cardOp hcard fun _ => by rfl).bind fun _ => h.serialWrite _)
        fun _ => h.serialWrite _

theorem m28 (h : Frame P r) (hcard : CardFrame r) (c : GcodeCommand R) :
    Moves r (m28 P c : FwM R σ Unit) :=
  (cardOp hcard fun _ => by rfl).bind fun _ =>
    (cardOp hcard fun _ => by rfl).bind fun _ =>
    (cardOp hcard fun _ => by rfl).bind fun _ =>
    (h.sdOpen hcard _ _).bind fun _ =>
      Moves.ite
        (fun _ => (cardOp hcard fun _ => by rfl).bind fun _ =>
          h.serialWrite _)
        fun _ => h.serialWrite _

theorem m26 (hcard : CardFrame r) (c : GcodeCommand R) :
    Moves r (m26 P c : FwM R σ Unit) :=
  cardOp hcard fun fw => by
    split <;> rfl

theorem tempSet (h : Frame P r) {t : Int} (hheat : HeatFrame r t)
    (sensor : Sensor) : Moves r (tempSet t sensor : FwM R σ Unit) :=
  Moves.modify fun fw =>
    trans_of r (h.timeout (if t ≠ 0 then 0 else fw.steptimeout) fw)
      (hheat sensor _)

theorem processM (h : Frame P r) {c : GcodeCommand R} {code : MCode}
    (hqueue : Command.queues (.m code) = true → QueueFrame r)
    (hcard : Command.usesCard (.m code) = true → CardFrame r)
    (hset : Command.configures (.m code) = true → SettingsFrame r)
    (hheat : Command.heats (.m code) = true → HeatFrame r (uint16 c.s)) :
    Moves r (processM P c code : FwM R σ (Outcome R)) := by
  cases code with
  | m20 =>
      exact Moves.return ((h.serialWrite _).bind fun _ =>
        h.report.bind fun _ => h.serialWrite _) _
  | m21 =>
      exact Moves.return ((cardOp (hcard rfl) fun _ => by rfl).bind fun _ =>
        cardOp (hcard rfl) fun _ => by rfl) _
  | m22 | m24 | m25 =>
      exact Moves.return (cardOp (hcard rfl) fun _ => by rfl) _
  | m23 => exact (h.m23 (hcard rfl) c).return _
  | m26 => exact (m26 (hcard rfl) c).return _
  | m28 => exact (h.m28 (hcard rfl) c).return _
  | m27 =>
      exact Moves.return (Moves.get.bind fun _ =>
        Moves.ite (fun _ => h.serialWrite _) fun _ => h.serialWrite _) _
  | m101 | m103 =>
      exact Moves.return
        ((Moves.modify fun fw => h.extruder _ fw.extruder1Speed
          fw.autoPrimeSteps fw.autoReverseSteps fw).bind fun _ =>
        Moves.get.bind fun _ => Moves.when fun _ => h.specialMoveE (hqueue rfl) _ _) _
  | m104 =>
      exact Moves.return (Moves.get.bind fun _ => Moves.when fun _ =>
        (h.tempSet (hheat rfl) _).bind fun _ =>
        Moves.when fun _ => h.planBufferActionWait (hqueue rfl) _) _
  | m109 =>
      exact Moves.return (Moves.get.bind fun _ => Moves.when fun _ =>
        (h.tempSet (hheat rfl) _).bind fun _ => h.planBufferActionWait (hqueue rfl) _) _
  | m105 | m119 | m600 => exact Moves.return h.report _
  | m106 | m107 =>
      exact Moves.return (Moves.modify fun fw => h.digitalWrite _ _ _ fw) _
  | m108 =>
      exact Moves.return (Moves.when fun _ => Moves.modify fun fw =>
        h.extruder fw.extrudersOn _ fw.autoPrimeSteps fw.autoReverseSteps fw) _
  | m227 | m229 =>
      exact Moves.return (Moves.when fun _ => Moves.modify fun fw =>
        h.extruder fw.extrudersOn fw.extruder1Speed _ _ fw) _
  | m112 => exact h.m112.return _
  | m228 =>
      exact Moves.return (Moves.modify fun fw =>
        h.extruder fw.extrudersOn fw.extruder1Speed _ _ fw) _
  | m114 =>
      exact Moves.return (Moves.get.bind fun _ =>
        Moves.when fun _ => h.serialWrite _) _
  | m115 => exact Moves.return (h.serialWrite _) _
  | m140 => exact Moves.return (h.tempSet (hheat rfl) _) _
  | m190 =>
      exact Moves.return ((h.enablePins false).bind fun _ =>
        Moves.modify fun fw => h.timeout _ fw) _
  | m191 => exact Moves.return (h.enablePins true) _
  | m200 =>
      exact Moves.ite (fun _ => Moves.return h.report _)
        fun _ => (setConfig (hset rfl) _).bind fun _ =>
          Moves.get.bind fun _ => Moves.pure _
  | m202 | m206 =>
      exact Moves.ite (fun _ => Moves.return h.report _)
        fun _ => Moves.return (setConfig (hset rfl) _) _
  | m300 =>
      exact Moves.return ((h.spinUntil _).bind fun _ =>
        Moves.modify fun fw => h.effect _ true fw) _
  | m500 | m501 => exact h.tableEntry _ c
  | m542 =>
      exact Moves.return (Moves.get.bind fun _ => Moves.when fun _ =>
        (Moves.when fun _ => h.enqueueMoved (hqueue rfl) _).bind fun _ =>
        Moves.get.bind fun _ => h.enqueueMoved (hqueue rfl) _) _
  | m551 =>
      exact Moves.return (Moves.when fun _ => h.specialMoveE (hqueue rfl) _ _) _
  | m29 | m82 | m110 | m111 | m113 | m130 | m131 | m132 | m133 | m134 | m141
  | m142 | m543 => exact Moves.pure _

/-- Every command stays inside the frame, given the frames for the queue, the card, the
settings and the heaters where it uses them. -/
theorem processGcodeCommand (h : Frame P r) {c : GcodeCommand R}
    (hqueue : Command.queues (commandOf c) = true → QueueFrame r)
    (hcard : Command.usesCard (commandOf c) = true → CardFrame r)
    (hset : Command.configures (commandOf c) = true → SettingsFrame r)
    (hheat : Command.heats (commandOf c) = true → HeatFrame r (uint16 c.s)) :
    Moves r (processGcodeCommand P c : FwM R σ (Change R)) := by
  have hrun : Moves r (runCommand P c : FwM R σ (Outcome R)) := by
    unfold runCommand
    split
    · next code heq =>
      rw [heq] at hqueue
      exact h.processG c hqueue
    · exact (h.serialWrite _).return _
    · next code heq =>
      rw [heq] at hqueue hcard hset hheat
      exact h.processM hqueue hcard hset hheat
    · exact (h.serialWrite _).return _
    · exact Moves.pure _
  exact hrun.bind fun _ => Moves.return (Moves.when fun _ => h.serialWrite _) _

/-- Saving a line to the file stays inside a frame that allows for the card. -/
theorem writeLine (h : Frame P r) (hcard : CardFrame r) (c : GcodeCommand R)
    (data : List UInt8) : Moves r (writeLine P c data : FwM R σ Unit) :=
  Moves.ite
    (fun _ => Moves.ite
      (fun _ => (cardOp hcard fun _ => by rfl).bind fun _ =>
        (cardOp hcard fun _ => by rfl).bind fun _ => h.serialWrite _)
      fun _ => h.serialWrite _)
    fun _ => Moves.bind
      (Moves.get.bind fun _ => (cardOp hcard fun _ => by rfl).return _)
      fun _ => Moves.ite (fun _ => h.serialWrite _) fun _ => h.serialWrite _

/-- A line stays inside the frame whether it is refused, saved or processed; what it
needs of the frame depends on its command. -/
theorem takeLine (h : Frame P r) (hcard : CardFrame r) {s : Session R σ}
    {data : List UInt8}
    (hqueue : Processes s data → (commandOf (parsed s data)).queues = true →
      QueueFrame r)
    (hset : Processes s data → (commandOf (parsed s data)).configures = true →
      SettingsFrame r)
    (hheat : Processes s data → (commandOf (parsed s data)).heats = true →
      HeatFrame r (uint16 (parsed s data).s))
    (irqs : List Irq) : r s.fw (takeLine P s data irqs).2.state := by
  rw [takeLine_state]
  split
  · next hsum =>
    split
    · exact h.writeLine hcard _ _ ⟨s.fw, irqs⟩
    · next hsd =>
      have hproc : Processes s data := ⟨hsum, by simpa using hsd⟩
      exact h.processGcodeCommand (hqueue hproc) (fun _ => hcard) (hset hproc)
        (hheat hproc) ⟨s.fw, irqs⟩
  · exact h.serialWrite _ ⟨s.fw, irqs⟩

end Frame

end Handlers

end R2C2Firmware.Ports.GcodeProcess
